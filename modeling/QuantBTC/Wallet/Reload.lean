/-
# Wallet.Reload -- the addresses of a wallet that is loaded again

The file of a wallet has its range, its cache and the records of its keys; the scripts are made
again when it is loaded, the hybrid ones from the records of post-quantum keys.  `Describes` says
which scripts a range and some records give, and under which index.  A top-up, a new address,
encryption and unlocking keep the wallet as described (`Whole`), and loading makes it so.

A top-up starts at the first index, loading at the start of the range.  A descriptor that was
imported with a range that starts later has addresses that are gone after a restart.
-/
import QuantBTC.Wallet.NewAddress

namespace QuantBTC.Wallet

set_option autoImplicit false

open Primitives Script Theory.Loops Theory.Maps

variable {Cache : Type} (env : WalletEnv Cache)

namespace SpkMan

/-! ## Descriptors and records -/

structure Separates : Prop where
  nodup : ∀ i, (env.desc.scripts i).Nodup
  scripts : ∀ {i j script}, env.desc.Has i → env.desc.Has j → script ∈ env.desc.scripts i →
    script ∈ env.desc.scripts j → i = j
  ids : ∀ {i j pubkey other}, env.desc.Has i → env.desc.Has j → pubkey ∈ env.desc.pubkeys i →
    other ∈ env.desc.pubkeys j → env.crypto.getID pubkey = env.crypto.getID other → pubkey = other
  ownKey : ∀ {i j pubkey}, env.desc.Has i → env.desc.Has j → pubkey ∈ env.desc.pubkeys i →
    keyHashOf ((env.desc.scripts j).headD []) = some (env.crypto.getID pubkey) → i = j

def First (pubkey : CPubKey) (i : Nat) : Prop :=
  pubkey ∈ env.desc.pubkeys i ∧ ∀ j < i, pubkey ∉ env.desc.pubkeys j

def RecordOf (db : WalletDB Cache) (pubkey : CPubKey) (pqcPub : Bytes) : Prop :=
  ∃ secret, db.pqcKeys.lookup pubkey = some (pqcPub, secret) ∨
    db.cryptedPqcKeys.lookup pubkey = some (pqcPub, secret)

def Describes (m : Nat) (records : CPubKey → Bytes → Prop) (script : Bytes) (i : Nat) : Prop :=
  i < m ∧ (script ∈ env.desc.scripts i ∨ ∃ pubkey pqcPub, records pubkey pqcPub ∧
    First env pubkey i ∧ script = payToKeyHash (hybridHash env pubkey pqcPub))

structure Listed (n m : Nat) (records : CPubKey → Bytes → Prop) (w : SpkMan Cache) : Prop where
  pubkeys : AllEntries (fun pubkey i => i < m ∧ First env pubkey i) w.mMapPubkeys
  known : ∀ i < n, ∀ pubkey ∈ env.desc.pubkeys i, pubkey ∈ w.mMapPubkeys
  recorded : ∀ pubkey pqcPub, records pubkey pqcPub → pubkey ∈ w.mMapPubkeys
  scripts : AllEntries (Describes env m records) w.mMapScriptPubKeys
  entered : ∀ script i, Describes env m records script i → script ∈ w.mMapScriptPubKeys

variable {env} {n m : Nat} {records records' : CPubKey → Bytes → Prop} {w w' : SpkMan Cache}

theorem First.unique {pubkey : CPubKey} {i j : Nat} (one : First env pubkey i)
    (two : First env pubkey j) : i = j := by
  rcases Nat.lt_trichotomy i j with below | same | above
  · exact absurd one.1 (two.2 i below)
  · exact same
  · exact absurd two.1 (one.2 j above)

theorem Describes.mono {script : Bytes} {i m' : Nat} (described : Describes env m records script i)
    (below : m ≤ m') (grown : ∀ pubkey pqcPub, records pubkey pqcPub → records' pubkey pqcPub) :
    Describes env m' records' script i := by
  obtain ⟨bound, plain | ⟨pubkey, pqcPub, recorded, first, same⟩⟩ := described
  · exact ⟨by omega, .inl plain⟩
  · exact ⟨by omega, .inr ⟨pubkey, pqcPub, grown _ _ recorded, first, same⟩⟩

namespace Listed

theorem find (listed : Listed env n m records w) {pubkey : CPubKey} (here : pubkey ∈ w.mMapPubkeys) :
    ∃ i, w.mMapPubkeys.lookup pubkey = some i ∧ i < m ∧ First env pubkey i := by
  obtain ⟨i, found⟩ := Option.isSome_iff_exists.mp (AList.lookup_isSome.mpr here)
  exact ⟨i, found, listed.pubkeys _ _ found⟩

theorem congr (listed : Listed env n m records w) (scripts : w'.mMapScriptPubKeys = w.mMapScriptPubKeys)
    (pubkeys : w'.mMapPubkeys = w.mMapPubkeys)
    (same : ∀ pubkey pqcPub, records' pubkey pqcPub ↔ records pubkey pqcPub) :
    Listed env n m records' w' := by
  obtain rfl : records' = records := by
    funext pubkey pqcPub
    exact propext (same pubkey pqcPub)
  exact ⟨pubkeys ▸ listed.pubkeys, pubkeys ▸ listed.known, pubkeys ▸ listed.recorded,
    scripts ▸ listed.scripts, scripts ▸ listed.entered⟩

theorem isMine_iff (listed : Listed env n m records w) (script : Bytes) :
    w.isMine script = true ↔ ∃ i, Describes env m records script i := by
  constructor
  · intro mine
    obtain ⟨i, found⟩ := Option.isSome_iff_exists.mp mine
    exact ⟨i, listed.scripts _ _ found⟩
  · rintro ⟨i, described⟩
    exact AList.lookup_isSome.mpr (listed.entered script i described)

theorem lookup_iff (listed : Listed env n m records w)
    (single : ∀ script i j, Describes env m records script i → Describes env m records script j →
      i = j) (script : Bytes) (i : Nat) :
    w.mMapScriptPubKeys.lookup script = some i ↔ Describes env m records script i := by
  constructor
  · exact listed.scripts script i
  · intro described
    obtain ⟨j, found⟩ := Option.isSome_iff_exists.mp
      (AList.lookup_isSome.mpr (listed.entered script i described))
    rw [found, single script i j described (listed.scripts _ _ found)]

/-! ## One index -/

theorem addScripts (listed : Listed env n n records w) :
    Listed env n (n + 1) records (w.addScripts env n) where
  pubkeys := listed.pubkeys.mono fun _ _ own => ⟨by omega, own.2⟩
  known := listed.known
  recorded := listed.recorded
  scripts := by
    intro script i found
    rw [SpkMan.addScripts, lookup_foldl_insert] at found
    split at found
    next here =>
      cases found
      exact ⟨Nat.lt_succ_self n, .inl here⟩
    · exact (listed.scripts _ _ found).mono (Nat.le_succ n) fun _ _ recorded => recorded
  entered := by
    intro script i described
    rw [← AList.lookup_isSome, SpkMan.addScripts, lookup_foldl_insert]
    split
    · rfl
    next other =>
      refine AList.lookup_isSome.mpr (listed.entered script i ?_)
      obtain ⟨below, plain | ⟨pubkey, pqcPub, recorded, first, same⟩⟩ := described
      · refine ⟨lt_of_le_of_ne (Nat.le_of_lt_succ below) ?_, .inl plain⟩
        rintro rfl
        exact other plain
      · obtain ⟨j, -, bound, found⟩ := listed.find (listed.recorded _ _ recorded)
        rw [first.unique found]
        exact ⟨bound, .inr ⟨pubkey, pqcPub, recorded, found, same⟩⟩

theorem addPubkey (listed : Listed env n (n + 1) records w) {pubkey : CPubKey}
    (new : pubkey ∉ w.mMapPubkeys) (here : pubkey ∈ env.desc.pubkeys n) :
    Listed env n (n + 1) records (w.addPubkey pubkey n) :=
  { listed with
    pubkeys := listed.pubkeys.insert ⟨Nat.lt_succ_self n, here,
      fun j below earlier => new (listed.known j below pubkey earlier)⟩
    known := fun i below other member =>
      (AList.mem_insert _).mpr (.inr (listed.known i below other member))
    recorded := fun other pqcPub recorded =>
      (AList.mem_insert _).mpr (.inr (listed.recorded other pqcPub recorded)) }

theorem close (listed : Listed env n (n + 1) records w)
    (all : ∀ pubkey ∈ env.desc.pubkeys n, pubkey ∈ w.mMapPubkeys) :
    Listed env (n + 1) (n + 1) records w :=
  { listed with
    known := fun i below pubkey member => by
      rcases Nat.lt_succ_iff_lt_or_eq.mp below with earlier | rfl
      · exact listed.known i earlier pubkey member
      · exact all pubkey member }

theorem register (listed : Listed env n m records w) {pubkey : CPubKey} {pqcPub : Bytes} {i : Nat}
    (found : w.mMapPubkeys.lookup pubkey = some i)
    (grown : ∀ other pqcPub', records' other pqcPub' ↔
      other = pubkey ∧ pqcPub' = pqcPub ∨ records other pqcPub') :
    Listed env n m records' (w.registerHybrid env pubkey pqcPub i) := by
  obtain ⟨bound, first⟩ := listed.pubkeys _ _ found
  refine { listed with recorded := ?_, scripts := ?_, entered := ?_ }
  · intro other pqcPub' recorded
    rcases (grown _ _).mp recorded with ⟨rfl, -⟩ | earlier
    · exact mem_of_lookup found
    · exact listed.recorded _ _ earlier
  · refine AllEntries.insert (listed.scripts.mono fun script j described =>
      described.mono (le_refl m) fun _ _ recorded => (grown _ _).mpr (.inr recorded)) ?_
    exact ⟨bound, .inr ⟨pubkey, pqcPub, (grown _ _).mpr (.inl ⟨rfl, rfl⟩), first, rfl⟩⟩
  · rintro script j ⟨below, plain | ⟨other, pqcPub', recorded, first', rfl⟩⟩
    · exact (AList.mem_insert _).mpr (.inr (listed.entered script j ⟨below, .inl plain⟩))
    · rcases (grown _ _).mp recorded with ⟨rfl, rfl⟩ | earlier
      · exact (AList.mem_insert _).mpr (.inl rfl)
      · exact (AList.mem_insert _).mpr (.inr (listed.entered _ j
          ⟨below, .inr ⟨other, pqcPub', earlier, first', rfl⟩⟩))

end Listed

/-! ## Records of the file -/

theorem recordOf_insert {db : WalletDB Cache} {pubkey : CPubKey} {record : Bytes × Bytes}
    (only : ∀ pqcPub, RecordOf db pubkey pqcPub → pqcPub = record.1) (other : CPubKey)
    (pqcPub : Bytes) :
    RecordOf { db with pqcKeys := db.pqcKeys.insert pubkey record } other pqcPub ↔
      other = pubkey ∧ pqcPub = record.1 ∨ RecordOf db other pqcPub := by
  by_cases same : other = pubkey
  · subst same
    have here : RecordOf { db with pqcKeys := db.pqcKeys.insert other record } other record.1 :=
      ⟨record.2, .inl (AList.lookup_insert _)⟩
    constructor
    · rintro ⟨secret, found | found⟩
      · rw [AList.lookup_insert] at found
        cases found
        exact .inl ⟨rfl, rfl⟩
      · exact .inr ⟨secret, .inr found⟩
    · rintro (⟨-, rfl⟩ | recorded)
      · exact here
      · exact only pqcPub recorded ▸ here
  · simp [RecordOf, AList.lookup_insert_ne same, same]

theorem recordOf_writeCrypted {db : WalletDB Cache} {pubkey : CPubKey} {pair : Bytes × Bytes}
    (only : ∀ pqcPub, RecordOf db pubkey pqcPub → pqcPub = pair.1) (other : CPubKey)
    (pqcPub : Bytes) :
    RecordOf (db.writeCryptedPqcKey pubkey pair) other pqcPub ↔
      other = pubkey ∧ pqcPub = pair.1 ∨ RecordOf db other pqcPub := by
  by_cases same : other = pubkey
  · subst same
    have here : RecordOf (db.writeCryptedPqcKey other pair) other pair.1 :=
      ⟨pair.2, .inr (AList.lookup_insert _)⟩
    constructor
    · rintro ⟨secret, found | found⟩
      · exact absurd (lookup_of_lookup_erase found).1 (not_not.mpr rfl)
      · rw [WalletDB.writeCryptedPqcKey, AList.lookup_insert] at found
        cases found
        exact .inl ⟨rfl, rfl⟩
    · rintro (⟨-, rfl⟩ | recorded)
      · exact here
      · exact only pqcPub recorded ▸ here
  · simp [RecordOf, WalletDB.writeCryptedPqcKey, AList.lookup_insert_ne same,
      AList.lookup_erase_ne same, same]

theorem topUpIndex_ok {config : PQCConfig} {provider : KeyMap} {i : Nat}
    (ok : (topUpIndex env config provider w i).2 = true) :
    ∃ items v, w.expandIndex env provider i = some items ∧
      loop (topUpPubkey env config i ((w.addScripts env i).privKeysAt env config provider i))
        (env.desc.pubkeys i) (w.addScripts env i) = (v, true) ∧
      topUpIndex env config provider w i = (v.indexDone env items, true) ∧
      ∃ scripts pubkeys pqcKeys cryptedPqcKeys db, v =
        { w with
          mMapScriptPubKeys := scripts, mMapPubkeys := pubkeys, mMapPqcKeys := pqcKeys
          mMapCryptedPqcKeys := cryptedPqcKeys, db } := by
  have frame : ∃ scripts pubkeys pqcKeys cryptedPqcKeys db,
      (loop (topUpPubkey env config i ((w.addScripts env i).privKeysAt env config provider i))
        (env.desc.pubkeys i) (w.addScripts env i)).1 =
        { w with
          mMapScriptPubKeys := scripts, mMapPubkeys := pubkeys, mMapPqcKeys := pqcKeys
          mMapCryptedPqcKeys := cryptedPqcKeys, db } := by
    refine loop_invariant (fun v : SpkMan Cache => ∃ scripts pubkeys pqcKeys cryptedPqcKeys db, v =
      { w with
        mMapScriptPubKeys := scripts, mMapPubkeys := pubkeys, mMapPqcKeys := pqcKeys
        mMapCryptedPqcKeys := cryptedPqcKeys, db }) ?_ ⟨_, _, _, _, _, rfl⟩
    rintro _ pubkey - ⟨_, _, _, _, _, rfl⟩
    exact topUpPubkey_frame i _ _ pubkey
  cases expanded : w.expandIndex env provider i with
  | none => simp [topUpIndex, expanded] at ok
  | some items =>
    simp only [topUpIndex, expanded] at ok ⊢
    split at ok
    · cases ok
    next v looped =>
      rw [looped] at frame
      exact ⟨items, v, rfl, looped, rfl, frame⟩

variable (env) in
structure Kept (n m : Nat) (w : SpkMan Cache) : Prop where
  listed : Listed env n m (RecordOf w.db) w
  cached : ∀ i < n, env.desc.expandFromCache w.cache i = true
  sameCache : w.db.cache = w.cache
  single : ∀ pubkey one two, RecordOf w.db pubkey one → RecordOf w.db pubkey two → one = two
  held : AllEntries (fun id hybrid => hybrid = {} ∨ ∃ pubkey, env.crypto.getID pubkey = id ∧
    RecordOf w.db pubkey hybrid.mPqcPublicKey) w.mMapPqcKeys

namespace Kept

theorem stores {config : PQCConfig} {i : Nat} {ecdsaKey : CKey} {pubkey : CPubKey}
    (kept : Kept env n m w) (found : w.mMapPubkeys.lookup pubkey = some i)
    (fresh : ∀ pqcPub, ¬ RecordOf w.db pubkey pqcPub)
    (stores : StoresPqcKey env config i ecdsaKey pubkey w w') : Kept env n m w' := by
  have single {db : WalletDB Cache} {record : Bytes × Bytes}
      (grown : ∀ other pqcPub, RecordOf db other pqcPub ↔
        other = pubkey ∧ pqcPub = record.1 ∨ RecordOf w.db other pqcPub) :
      ∀ other one two, RecordOf db other one → RecordOf db other two → one = two := by
    have := kept.single
    grind
  have held {db : WalletDB Cache} {record : Bytes × Bytes}
      (grown : ∀ other pqcPub, RecordOf db other pqcPub ↔
        other = pubkey ∧ pqcPub = record.1 ∨ RecordOf w.db other pqcPub) :
      AllEntries (fun id hybrid => hybrid = {} ∨ ∃ other, env.crypto.getID other = id ∧
        RecordOf db other hybrid.mPqcPublicKey) w.mMapPqcKeys :=
    kept.held.mono fun id hybrid own => own.imp_right fun ⟨other, same, recorded⟩ =>
      ⟨other, same, (grown _ _).mpr (.inr recorded)⟩
  have plain (hybrid : HybridKey) (record : Bytes × Bytes)
      (own : hybrid = {} ∨ hybrid.mPqcPublicKey = record.1) :
      Kept env n m ((w.storePqcKey env pubkey hybrid record).registerHybrid env pubkey record.1 i) := by
    have grown := @recordOf_insert _ w.db pubkey record fun _ recorded => absurd recorded (fresh _)
    refine ⟨Listed.register (w := w.storePqcKey env pubkey hybrid record)
      (kept.listed.congr rfl rfl fun _ _ => Iff.rfl) found grown, kept.cached, kept.sameCache,
      single grown, (held grown).insert ?_⟩
    exact own.imp_right fun same => ⟨pubkey, rfl, (grown _ _).mpr (.inl ⟨rfl, same⟩)⟩
  cases stores with
  | @falcon pqcPub pqcPriv scheme derived =>
    refine plain _ (pqcPub, []) ?_
    unfold HybridKey.setPQCPublicKey
    grind
  | @crypted pqcPub pqcPriv cryptedPqcPriv scheme encrypted derived encrypts =>
    have grown := @recordOf_writeCrypted _ w.db pubkey (pqcPub, cryptedPqcPriv)
      fun _ recorded => absurd recorded (fresh _)
    exact ⟨Listed.register (w := w.storeCryptedPqcKey env pubkey (pqcPub, cryptedPqcPriv))
      (kept.listed.congr rfl rfl fun _ _ => Iff.rfl) found grown, kept.cached, kept.sameCache,
      single grown, held grown⟩
  | @plain pqcPub pqcPriv scheme unencrypted derived =>
    refine plain _ (pqcPub, pqcPriv) ?_
    unfold HybridKey.setPQCKey
    grind

/-! ## Top-up -/

theorem topUpPubkey {config : PQCConfig} {privKeys : KeyMap} {pubkey : CPubKey}
    (kept : Kept env n (n + 1) w) (here : pubkey ∈ env.desc.pubkeys n) :
    Kept env n (n + 1) (topUpPubkey env config n privKeys w pubkey).1 ∧
      ∀ other, other = pubkey ∨ other ∈ w.mMapPubkeys →
        other ∈ (SpkMan.topUpPubkey env config n privKeys w pubkey).1.mMapPubkeys := by
  unfold SpkMan.topUpPubkey
  split
  next known =>
    refine ⟨kept, ?_⟩
    rintro other (rfl | member)
    · exact known
    · exact member
  next new =>
    have added : Kept env n (n + 1) (w.addPubkey pubkey n) :=
      { kept with listed := kept.listed.addPubkey new here }
    have all : ∀ other, other = pubkey ∨ other ∈ w.mMapPubkeys →
        other ∈ (w.addPubkey pubkey n).mMapPubkeys := fun other => (AList.mem_insert _).mpr
    dsimp only
    split
    · exact ⟨added, all⟩
    · split
      · exact ⟨added, all⟩
      next ecdsaKey _ =>
        rcases topUpPqcKey_stores n ecdsaKey pubkey with same | stored
        · rw [same]
          exact ⟨added, all⟩
        · refine ⟨added.stores (AList.lookup_insert _) ?_ stored, ?_⟩
          · exact fun pqcPub recorded => new (kept.listed.recorded _ _ recorded)
          · rwa [stored.mMapPubkeys_eq]

theorem topUpPubkeys {config : PQCConfig} {privKeys : KeyMap} (kept : Kept env n (n + 1) w)
    {pubkeys : List CPubKey} (here : ∀ pubkey ∈ pubkeys, pubkey ∈ env.desc.pubkeys n)
    (success : (loop (SpkMan.topUpPubkey env config n privKeys) pubkeys w).2 = true) :
    Kept env n (n + 1) (loop (SpkMan.topUpPubkey env config n privKeys) pubkeys w).1 ∧
      ∀ other, other ∈ pubkeys ∨ other ∈ w.mMapPubkeys →
        other ∈ (loop (SpkMan.topUpPubkey env config n privKeys) pubkeys w).1.mMapPubkeys := by
  induction pubkeys generalizing w with
  | nil => exact ⟨kept, fun other member => by simpa using member⟩
  | cons pubkey rest ih =>
    obtain ⟨first, known⟩ := @topUpPubkey _ _ _ _ config privKeys _ kept (here pubkey List.mem_cons_self)
    cases ok : (SpkMan.topUpPubkey env config n privKeys w pubkey).2 with
    | false => simp [loop, ok] at success
    | true =>
      rw [loop_cons_of_ok ok] at success ⊢
      obtain ⟨last, all⟩ := ih first (fun other member => here other (List.mem_cons_of_mem _ member))
        success
      refine ⟨last, fun other member => all other ?_⟩
      rw [List.mem_cons, or_right_comm] at member
      exact member.symm.imp_right (known other)

theorem topUpIndex {config : PQCConfig} {provider : KeyMap} (kept : Kept env n n w)
    (ok : (SpkMan.topUpIndex env config provider w n).2 = true) :
    Kept env (n + 1) (n + 1) (SpkMan.topUpIndex env config provider w n).1 := by
  obtain ⟨items, v, expanded, looped, topped, _, _, _, _, _, frame⟩ := topUpIndex_ok ok
  have sameCache : v.cache = w.cache := by rw [frame]
  have start : Kept env n (n + 1) (w.addScripts env n) :=
    { kept with listed := kept.listed.addScripts }
  obtain ⟨last, all⟩ := start.topUpPubkeys (fun _ here => here) (by rw [looped])
  rw [looped] at last all
  have here := expandFromCache_expandIndex expanded
  rw [topped]
  have listed := last.listed.close fun pubkey member => all pubkey (.inl member)
  cases items with
  | none =>
    refine { last with listed := listed.congr rfl rfl fun _ _ => Iff.rfl, cached := ?_ }
    intro i below
    rcases Nat.lt_succ_iff_lt_or_eq.mp below with earlier | rfl
    · exact last.cached i earlier
    · show env.desc.expandFromCache v.cache _ = true
      rwa [sameCache]
  | some items =>
    refine { last with
      listed := listed.congr rfl rfl fun _ _ => Iff.rfl, cached := ?_
      sameCache := congrArg (env.desc.merge · items) last.sameCache }
    intro i below
    rcases Nat.lt_succ_iff_lt_or_eq.mp below with earlier | rfl
    · exact env.desc.expandFromCache_merge _ _ _ (last.cached i earlier)
    · show env.desc.expandFromCache (env.desc.merge v.cache items) _ = true
      rwa [sameCache]

end Kept

variable (env) in
structure Whole (w : SpkMan Cache) : Prop where
  kept : Kept env w.rangeEnd w.rangeEnd w
  counted : w.mCachedCount = w.rangeEnd
  rangeStart : w.rangeStart = 0
  written : w.db.descriptor = some (0, w.rangeEnd, w.nextIndex)

variable (env) in
structure ToppedTo (next i : Nat) (w : SpkMan Cache) : Prop where
  kept : Kept env i i w
  counted : w.mCachedCount = i
  rangeStart : w.rangeStart = 0
  nextIndex : w.nextIndex = next

theorem ToppedTo.topUpIndex {next i : Nat} {config : PQCConfig} {provider : KeyMap}
    (before : ToppedTo env next i w) (ok : (SpkMan.topUpIndex env config provider w i).2 = true) :
    ToppedTo env next (i + 1) (SpkMan.topUpIndex env config provider w i).1 := by
  have kept := before.kept.topUpIndex ok
  obtain ⟨items, v, -, -, topped, _, _, _, _, _, rfl⟩ := topUpIndex_ok ok
  rw [topped] at kept ⊢
  refine ⟨kept, ?_, ?_, ?_⟩ <;> cases items
  all_goals first | exact congrArg (· + 1) before.counted | exact before.rangeStart | exact before.nextIndex

theorem ToppedTo.topUp {next : Nat} {config : PQCConfig} {size : Nat} (start : ToppedTo env next n w)
    (topped : w.topUp env config size = .ok (w', true)) :
    Whole env w' ∧ w'.nextIndex = next ∧ w'.rangeEnd = w.newRangeEnd env config size := by
  obtain ⟨kept, rfl, rangeStart, nextIndex⟩ := start
  have fixed : ToppedTo env next w.mCachedCount (w.fixRange env) := by
    unfold fixRange
    split
    · exact ⟨kept, rfl, rangeStart, nextIndex⟩
    · exact ⟨{ kept with listed := { kept.listed with } }, rfl, rfl, nextIndex⟩
  unfold SpkMan.topUp at topped
  dsimp only at topped
  split at topped
  · cases topped
  next last looped =>
    split at topped
    next reached =>
      cases topped
      have done := loop_range' (ToppedTo env next) (fun _ _ before ok => before.topUpIndex ok)
        fixed (by rw [looped])
      rw [looped] at done
      have keptLast := done.kept
      rw [← done.counted, ← reached] at keptLast
      refine ⟨⟨{ keptLast with listed := { keptLast.listed with } },
        reached.symm, done.rangeStart, ?_⟩, done.nextIndex, rfl⟩
      show some (last.rangeStart, _, _) = _
      rw [done.rangeStart]
      rfl
    · cases topped

theorem Whole.toppedTo (whole : Whole env w) : ToppedTo env w.nextIndex w.rangeEnd w :=
  ⟨whole.kept, whole.counted, whole.rangeStart, rfl⟩

/-! ## Addresses -/

theorem Kept.findPubkey (separates : Separates env) (kept : Kept env n n w) {pubkey other : CPubKey}
    {pqcPub : Bytes} (recorded : RecordOf w.db pubkey pqcPub)
    (found : w.findPubkey env (env.crypto.getID pubkey) = some other) : other = pubkey := by
  obtain ⟨entry, listed, rfl⟩ := Option.map_eq_some_iff.mp found
  obtain ⟨below, here, -⟩ :=
    kept.listed.pubkeys _ _ (lookup_of_mem_entries (List.mem_of_find?_eq_some listed))
  obtain ⟨i, -, below', here', -⟩ := kept.listed.find (kept.listed.recorded _ _ recorded)
  exact separates.ids ⟨_, kept.cached _ below⟩ ⟨_, kept.cached _ below'⟩ here here'
    (by simpa using List.find?_some listed)

theorem Kept.nextHybrid (separates : Separates env) {config : PQCConfig} (kept : Kept env n n w)
    (below : w.nextIndex < n) {pubkey : CPubKey} {pqcPub : Bytes}
    (next : w.nextHybrid env config = some (pubkey, pqcPub)) :
    RecordOf w.db pubkey pqcPub ∧ w.mMapPubkeys.lookup pubkey = some w.nextIndex := by
  have has : env.desc.Has w.nextIndex := ⟨_, kept.cached _ below⟩
  unfold SpkMan.nextHybrid at next
  split at next
  · split at next
    · cases next
    next keyid keyHash =>
      split at next
      next hybrid pubkey' stored listed =>
        split at next
        · cases next
        next present =>
          cases next
          have here := List.mem_of_find?_eq_some listed
          have own : env.crypto.getID pubkey = keyid := by simpa using List.find?_some listed
          rcases kept.held _ _ stored with rfl | ⟨other, same, recorded⟩
          · exact absurd rfl present
          · obtain ⟨i, found, bound, first⟩ :=
              kept.listed.find (kept.listed.recorded _ _ recorded)
            obtain rfl := separates.ids has ⟨_, kept.cached _ bound⟩ here first.1
              (own.trans same.symm)
            obtain rfl := separates.ownKey ⟨_, kept.cached _ bound⟩ has first.1
              (by rw [keyHash, own])
            exact ⟨recorded, found⟩
      · cases next
  · cases next

theorem Whole.takeDestination (separates : Separates env) {config : PQCConfig}
    (whole : Whole env w) (below : w.nextIndex < w.rangeEnd) :
    Whole env (w.takeDestination env config).1 := by
  unfold SpkMan.takeDestination
  split
  · exact { whole with
      kept := { whole.kept with listed := { whole.kept.listed with } }
      written := by
        show some (w.rangeStart, _, _) = _
        rw [whole.rangeStart]
        rfl }
  next pubkey pqcPub next =>
    obtain ⟨recorded, found⟩ := whole.kept.nextHybrid separates below next
    have listed := @Listed.register _ _ _ _ _ (RecordOf w.db) _ whole.kept.listed _ pqcPub _ found
      fun other pqcPub' => by
        refine ⟨.inr, ?_⟩
        rintro (⟨rfl, rfl⟩ | recorded)
        · exact recorded
        · exact recorded
    exact { whole with
      kept := { whole.kept with listed := listed.congr rfl rfl fun _ _ => Iff.rfl }
      written := by
        show some (w.rangeStart, _, _) = _
        rw [whole.rangeStart]
        rfl }

theorem Whole.getNewDestination (separates : Separates env) (pool : 0 < env.mKeypoolSize)
    {config : PQCConfig} (whole : Whole env w) {first : SpkMan Cache} {script : Bytes}
    (topped : w.topUp env config 0 = .ok (first, true))
    (handed : w.getNewDestination env config = .ok (w', some script)) : Whole env w' := by
  obtain ⟨_, _, second, topped', toppedOne, -, ranged, rfl⟩ := getNewDestination_eq_some handed
  cases topped.symm.trans topped'
  obtain ⟨wholeFirst, next, rangeEnd⟩ := whole.toppedTo.topUp topped
  rw [topUpOne, if_neg (by rw [wholeFirst.counted]; omega)] at toppedOne
  cases toppedOne
  refine wholeFirst.takeDestination separates ?_
  have target : 0 < targetSize env config 0 := by
    rw [targetSize, if_neg (lt_irrefl 0)]
    split
    · exact Nat.one_pos
    · exact pool
  rw [next, rangeEnd, newRangeEnd, if_pos ranged]
  omega

/-! ## Encryption -/

theorem Kept.sealed (separates : Separates env) {masterKey : Bytes} (kept : Kept env n n w)
    {entry : (_ : CKeyID) × HybridKey} (listed : entry ∈ w.mMapPqcKeys.entries) :
    Kept env n n (migratePqcKey env masterKey w entry).1 := by
  unfold migratePqcKey
  split
  · exact kept
  next pubkey crypted sealed =>
    obtain ⟨present, found, -⟩ := sealPqcKey_eq_some sealed
    rcases kept.held _ _ (lookup_of_mem_entries listed) with empty | ⟨other, same, recorded⟩
    · rw [empty] at present
      exact absurd rfl present
    · obtain rfl : pubkey = other := kept.findPubkey separates recorded (by rwa [same])
      have same := @recordOf_writeCrypted _ w.db pubkey (entry.2.mPqcPublicKey, crypted)
        fun pqcPub other => kept.single _ _ _ other recorded
      have unchanged : ∀ other pqcPub, RecordOf (w.db.writeCryptedPqcKey pubkey
          (entry.2.mPqcPublicKey, crypted)) other pqcPub ↔ RecordOf w.db other pqcPub := by
        intro other pqcPub
        rw [same]
        refine ⟨?_, .inr⟩
        rintro (⟨rfl, rfl⟩ | earlier)
        · exact recorded
        · exact earlier
      refine { kept with listed := kept.listed.congr rfl rfl unchanged, single := ?_, held := ?_ }
      · intro other one two
        rw [unchanged, unchanged]
        exact kept.single other one two
      · refine kept.held.mono fun id hybrid own => own.imp_right ?_
        rintro ⟨other, same, recorded⟩
        exact ⟨other, same, (unchanged _ _).mpr recorded⟩

theorem Whole.sealAll (separates : Separates env) {masterKey : Bytes} (whole : Whole env w) :
    Whole env (loop (migratePqcKey env masterKey) w.mMapPqcKeys.entries w).1 := by
  refine (loop_invariant (fun v : SpkMan Cache => Whole env v ∧ v.mMapPqcKeys = w.mMapPqcKeys) ?_
    ⟨whole, rfl⟩).1
  rintro v entry listed ⟨inv, same⟩
  have kept := @Kept.sealed _ _ _ _ separates masterKey inv.kept _ (by rwa [same])
  unfold migratePqcKey at kept ⊢
  split
  · exact ⟨inv, same⟩
  next pubkey crypted sealed =>
    simp only [sealed] at kept
    exact ⟨{ inv with kept }, same⟩

theorem Whole.forget (whole : Whole env w) :
    Whole env { w with mMapPqcKeys := ∅ } :=
  { whole with
    kept := { whole.kept with
      listed := { whole.kept.listed with }, held := .empty } }

theorem Whole.migrate (separates : Separates env) (masterKey : Bytes) (whole : Whole env w) :
    Whole env (w.migrate env masterKey).1 := by
  have moved := @Whole.sealAll _ _ _ separates masterKey whole
  unfold SpkMan.migrate
  split
  · split
    next failed => rwa [failed] at moved
    next done =>
      rw [done] at moved
      exact moved.forget
  · exact whole

theorem Whole.unlock (separates : Separates env) (masterKey : Bytes) (whole : Whole env w) :
    Whole env (w.unlock env masterKey) := by
  obtain ⟨checked, vMasterKey, same | migrated⟩ := @unlock_cases _ env masterKey w
  · rw [same]
    exact { whole with kept := { whole.kept with
      listed := { whole.kept.listed with } } }
  · have moved := whole.migrate separates masterKey
    rw [migrated]
    exact { moved with kept := { moved.kept with
      listed := { moved.kept.listed with } } }

theorem Whole.lock (whole : Whole env w) : Whole env w.lock :=
  { whole with kept := { whole.kept with
    listed := { whole.kept.listed with } } }

theorem encryptPqcKey_eq_migratePqcKey (masterKey : Bytes) :
    encryptPqcKey env (fun _ => true) masterKey = @migratePqcKey Cache env masterKey := by
  funext w entry
  unfold encryptPqcKey migratePqcKey
  split <;> rfl

theorem Whole.encryptWallet (separates : Separates env) {masterKey : Bytes} (whole : Whole env w)
    (done : w.encryptWallet env masterKey = .ok w') : Whole env w' := by
  have keyed {v : SpkMan Cache} (inv : Whole env v) (entries : List ((_ : CKeyID) × CKey)) :
      Whole env (loop (encryptKey env (fun _ => true) masterKey) entries v).1 := by
    refine loop_invariant (Whole env) (fun v entry _ inv => ?_) inv
    unfold encryptKey
    dsimp only
    split
    · exact inv
    · exact { inv with kept := { inv.kept with
        listed := { inv.kept.listed with } } }
  unfold SpkMan.encryptWallet at done
  split at done
  · cases done
    exact whole
  · split at done
    · cases done
    next finished =>
      cases done
      refine ((?_ : Whole env _).lock.unlock separates masterKey).lock
      have start : Whole env { w with hasEncryptionKeys := true, db := { w.db with hasMasterKey := true } } :=
        { whole with kept := { whole.kept with
          listed := { whole.kept.listed with } } }
      have loops := keyed start w.mMapKeys.entries
      unfold encrypt at finished
      rw [encryptPqcKey_eq_migratePqcKey] at finished
      split at finished
      · cases finished
      · split at finished
        · cases finished
        next v keys =>
          rw [keys] at loops
          have cleared : Whole env { v with mMapKeys := ∅ } :=
            { loops with kept := { loops.kept with listed := { loops.kept.listed with } } }
          have sealed := @Whole.sealAll _ _ _ separates masterKey cleared
          split at finished
          · cases finished
          next u moved =>
            cases finished
            change loop (migratePqcKey env masterKey) v.mMapPqcKeys.entries _ = _ at moved
            rw [moved] at sealed
            exact sealed.forget

/-! ## Loading -/

theorem setCacheScripts_eq {i : Nat} {scripts : List Bytes} (distinct : scripts.Nodup)
    (fresh : ∀ script ∈ scripts, script ∉ w.mMapScriptPubKeys) :
    loop (setCacheScript i) scripts w = ({ w with
      mMapScriptPubKeys :=
        scripts.foldl (fun spks script => spks.insert script i) w.mMapScriptPubKeys }, true) := by
  induction scripts generalizing w with
  | nil => rfl
  | cons script rest ih =>
    obtain ⟨unlisted, distinct⟩ := List.nodup_cons.mp distinct
    have enters : setCacheScript i w script
        = ({ w with mMapScriptPubKeys := w.mMapScriptPubKeys.insert script i }, true) :=
      if_neg (fresh script List.mem_cons_self)
    rw [loop_cons_of_ok (by rw [enters]), enters, ih distinct]
    · rfl
    · intro other later listed
      rcases (AList.mem_insert _).mp listed with rfl | earlier
      · exact unlisted later
      · exact fresh other (List.mem_cons_of_mem _ later) earlier

theorem Listed.setCacheIndex (separates : Separates env) {db : WalletDB Cache}
    (cached : ∀ i ≤ n, env.desc.expandFromCache db.cache i = true)
    (listed : Listed env n n (fun _ _ => False) w) (same : w.cache = db.cache) :
    (setCacheIndex env w n).2 = true ∧
      Listed env (n + 1) (n + 1) (fun _ _ => False) (SpkMan.setCacheIndex env w n).1 := by
  have fresh : ∀ script ∈ env.desc.scripts n, script ∉ w.mMapScriptPubKeys := by
    intro script here earlier
    obtain ⟨i, found⟩ := Option.isSome_iff_exists.mp (AList.lookup_isSome.mpr earlier)
    obtain ⟨below, plain | ⟨_, _, none, _⟩⟩ := listed.scripts _ _ found
    · exact below.ne (separates.scripts ⟨_, cached i below.le⟩ ⟨_, cached n (le_refl n)⟩ plain here)
    · exact none
  have entered := listed.addScripts
  have pubkeys : Listed env n (n + 1) (fun _ _ => False)
      ((env.desc.pubkeys n).foldl (setCachePubkey n) (w.addScripts env n)) := by
    refine List.foldlRecOn _ _ entered fun v listed pubkey here => ?_
    unfold setCachePubkey
    split
    · exact listed
    next new => exact listed.addPubkey new here
  have closed := pubkeys.close fun pubkey here =>
    (mem_setCachePubkeys _ _).mpr (.inr here)
  unfold SpkMan.setCacheIndex
  rw [if_pos (by rw [same]; exact cached n (le_refl n)), setCacheScripts_eq (separates.nodup n) fresh]
  exact ⟨rfl, { closed with }⟩

theorem Listed.loadRecords (separates : Separates env)
    {add : SpkMan Cache → (_ : CPubKey) × (Bytes × Bytes) → SpkMan Cache}
    (adds : add = addPQCKey env ∨ add = addCryptedPQCKey env)
    {entries : List ((_ : CPubKey) × (Bytes × Bytes))} (has : ∀ i < n, env.desc.Has i)
    (known : ∀ entry ∈ entries, ∃ i < n, entry.1 ∈ env.desc.pubkeys i)
    (listed : Listed env n n records w) :
    Listed env n n (fun pubkey pqcPub => records pubkey pqcPub ∨
      ∃ secret, ⟨pubkey, (pqcPub, secret)⟩ ∈ entries) (entries.foldl add w) := by
  induction entries generalizing w records with
  | nil => exact listed.congr rfl rfl (by simp)
  | cons entry rest ih =>
    obtain ⟨u, registers, scripts, pubkeys⟩ : ∃ u : SpkMan Cache,
        add w entry = registerLoaded env (env.crypto.getID entry.1) entry.2.1 u ∧
        u.mMapScriptPubKeys = w.mMapScriptPubKeys ∧ u.mMapPubkeys = w.mMapPubkeys := by
      rcases adds with rfl | rfl <;> exact ⟨_, rfl, rfl, rfl⟩
    obtain ⟨i, below, here⟩ := known entry List.mem_cons_self
    have before : Listed env n n records u := listed.congr scripts pubkeys fun _ _ => Iff.rfl
    have member := before.known i below entry.1 here
    obtain ⟨j, found, -, -⟩ := before.find member
    have after : Listed env n n (fun pubkey pqcPub => pubkey = entry.1 ∧ pqcPub = entry.2.1 ∨
        records pubkey pqcPub) (add w entry) := by
      rw [registers, registerLoaded]
      split
      next missing =>
        exact absurd (List.find?_eq_none.mp missing _ (mem_entries_of_lookup found)) (by simp)
      next other listed' =>
        have lookup := lookup_of_mem_entries (List.mem_of_find?_eq_some listed')
        obtain ⟨bound, first⟩ := before.pubkeys _ _ lookup
        have same : other.1 = entry.1 := separates.ids (has _ bound) (has i below) first.1 here
          (by simpa using List.find?_some listed')
        rw [same] at lookup ⊢
        exact before.register lookup fun _ _ => Iff.rfl
    refine (ih (fun later member => known later (List.mem_cons_of_mem _ member)) after).congr rfl rfl ?_
    intro pubkey pqcPub
    have head : (∃ secret, (⟨pubkey, (pqcPub, secret)⟩ : (_ : CPubKey) × (Bytes × Bytes)) = entry) ↔
        pubkey = entry.1 ∧ pqcPub = entry.2.1 := by
      constructor
      · rintro ⟨secret, rfl⟩
        exact ⟨rfl, rfl⟩
      · rintro ⟨rfl, rfl⟩
        exact ⟨entry.2.2, rfl⟩
    simp only [List.mem_cons, exists_or, head]
    rw [← or_assoc, or_comm (a := records pubkey pqcPub)]

theorem listed_setCache (separates : Separates env) {db : WalletDB Cache}
    (cached : ∀ i < n, env.desc.expandFromCache db.cache i = true) (range : Nat × Nat × Nat) :
    ∃ last, loop (setCacheIndex env) (List.range' 0 n) (empty db range) = (last, true) ∧
      Listed env n n (fun _ _ => False) last := by
  have looped : (loop (setCacheIndex env) (List.range' 0 n) (empty db range)).2 = true ∧
      Listed env (0 + n) (0 + n) (fun _ _ => False)
        (loop (setCacheIndex env) (List.range' 0 n) (empty db range)).1 ∧
      (loop (setCacheIndex env) (List.range' 0 n) (empty db range)).1.cache = db.cache := by
    refine loop_range'_ok (fun i (v : SpkMan Cache) =>
      Listed env i i (fun _ _ => False) v ∧ v.cache = db.cache) ?_ ⟨?_, rfl⟩
    · rintro i v below ⟨listed, same⟩
      obtain ⟨ok, next⟩ := listed.setCacheIndex separates (fun j bound => cached j (by omega)) same
      obtain ⟨_, _, _, frame⟩ := @setCacheIndex_frame _ env v i
      exact ⟨ok, next, by rw [frame]; exact same⟩
    · exact ⟨.empty, by simp, by simp, .empty, by simp [Describes]⟩
  rw [Nat.zero_add] at looped
  exact ⟨_, Prod.ext rfl looped.1, looped.2.1⟩

theorem Whole.load (separates : Separates env) (whole : Whole env w) :
    ∃ w', load env w.db = some w' ∧ Listed env w.rangeEnd w.rangeEnd (RecordOf w.db) w' := by
  have cached : ∀ i < w.rangeEnd, env.desc.expandFromCache w.db.cache i = true := by
    rw [whole.kept.sameCache]
    exact whole.kept.cached
  have known {pubkey : CPubKey} {pqcPub : Bytes} (recorded : RecordOf w.db pubkey pqcPub) :
      ∃ i < w.rangeEnd, pubkey ∈ env.desc.pubkeys i := by
    obtain ⟨i, -, below, here, -⟩ := whole.kept.listed.find (whole.kept.listed.recorded _ _ recorded)
    exact ⟨i, below, here⟩
  have has : ∀ i < w.rangeEnd, env.desc.Has i := fun i below => ⟨_, cached i below⟩
  obtain ⟨last, looped, listed⟩ := listed_setCache separates cached (0, w.rangeEnd, w.nextIndex)
  obtain ⟨w', loaded⟩ : ∃ w', SpkMan.load env w.db = some w' := by
    refine ⟨last.loadKeys env, ?_⟩
    unfold SpkMan.load
    rw [whole.written]
    rw [empty] at looped
    simp only [Nat.sub_zero, looped]
  refine ⟨w', loaded, ?_⟩
  obtain ⟨range, cached', written, looped', rfl⟩ := load_eq_some loaded
  cases whole.written.symm.trans written
  cases looped.symm.trans looped'
  -- the private keys change neither map
  have keyed : Listed env w.rangeEnd w.rangeEnd (fun _ _ => False)
      (w.db.cryptedKeys.entries.foldl (addCryptedKey env) (w.db.keys.entries.foldl (addKey env) last)) := by
    refine List.foldlRecOn _ _ (List.foldlRecOn _ _ listed ?_) ?_
    · exact fun v listed entry _ => { listed with }
    · intro v listed entry _
      obtain ⟨_, frame⟩ := @addCryptedKey_frame _ env v entry
      rw [frame]
      exact { listed with }
  have plain := keyed.loadRecords separates (.inl rfl) has
    fun entry member => known ⟨entry.2.2, .inl (lookup_of_mem_entries member)⟩
  have crypted := plain.loadRecords separates (.inr rfl) has
    fun entry member => known ⟨entry.2.2, .inr (lookup_of_mem_entries member)⟩
  refine crypted.congr rfl rfl fun pubkey pqcPub => ?_
  simp only [RecordOf, exists_or, false_or, AList.mem_lookup_iff.symm, Option.mem_def]

/-! ## Reloading -/

variable (env) in
structure Blank (w : SpkMan Cache) : Prop where
  rangeStart : w.rangeStart = 0
  scripts : w.mMapScriptPubKeys = ∅
  pubkeys : w.mMapPubkeys = ∅
  counted : w.mCachedCount = 0
  pqcKeys : w.mMapPqcKeys = ∅
  sameCache : w.db.cache = w.cache
  records : w.db.pqcKeys = ∅
  cryptedRecords : w.db.cryptedPqcKeys = ∅

variable (env) in
inductive Completed (masterKey : Bytes) : SpkMan Cache → Prop where
  | created {w w' : SpkMan Cache} (blank : Blank w) (config : PQCConfig) (size : Nat)
      (done : w.topUp env config size = .ok (w', true)) : Completed masterKey w'
  | topUp {w w' : SpkMan Cache} (before : Completed masterKey w) (config : PQCConfig) (size : Nat)
      (done : w.topUp env config size = .ok (w', true)) : Completed masterKey w'
  | getNewDestination {w w' first : SpkMan Cache} {script : Bytes} (before : Completed masterKey w)
      (config : PQCConfig) (topped : w.topUp env config 0 = .ok (first, true))
      (done : w.getNewDestination env config = .ok (w', some script)) : Completed masterKey w'
  | encryptWallet {w w' : SpkMan Cache} (before : Completed masterKey w)
      (done : w.encryptWallet env masterKey = .ok w') : Completed masterKey w'
  | lock {w : SpkMan Cache} (before : Completed masterKey w) : Completed masterKey w.lock
  | unlock {w : SpkMan Cache} (before : Completed masterKey w) :
      Completed masterKey (w.unlock env masterKey)

theorem Blank.toppedTo (blank : Blank w) : ToppedTo env w.nextIndex 0 w := by
  have none : ∀ pubkey pqcPub, ¬ RecordOf w.db pubkey pqcPub := by
    simp [RecordOf, blank.records, blank.cryptedRecords]
  refine ⟨⟨⟨?_, by simp, ?_, ?_, by simp [Describes]⟩, by simp, blank.sameCache, ?_, ?_⟩,
    blank.counted, blank.rangeStart, rfl⟩
  · rw [blank.pubkeys]
    exact .empty
  · exact fun pubkey pqcPub recorded => absurd recorded (none _ _)
  · rw [blank.scripts]
    exact .empty
  · exact fun pubkey one _ recorded => absurd recorded (none _ _)
  · rw [blank.pqcKeys]
    exact .empty

theorem Completed.whole {masterKey : Bytes} (separates : Separates env) (pool : 0 < env.mKeypoolSize)
    (completed : Completed env masterKey w) : Whole env w := by
  induction completed with
  | created blank _ _ done => exact (blank.toppedTo.topUp done).1
  | topUp _ _ _ done ih => exact (ih.toppedTo.topUp done).1
  | getNewDestination _ _ topped done ih => exact ih.getNewDestination separates pool topped done
  | encryptWallet _ done ih => exact ih.encryptWallet separates done
  | lock _ ih => exact ih.lock
  | unlock _ ih => exact ih.unlock separates masterKey

/-- **Loading restores every address**, when the range starts at the first index: the wallet loads,
and has the scripts that it had; under the same indices, unless two indices share a script. -/
theorem reload_keeps_addresses {masterKey : Bytes} (separates : Separates env)
    (pool : 0 < env.mKeypoolSize) (completed : Completed env masterKey w) :
    ∃ w', load env w.db = some w' ∧ (∀ script, w'.isMine script = w.isMine script) ∧
      ((∀ script i j, Describes env w.rangeEnd (RecordOf w.db) script i →
          Describes env w.rangeEnd (RecordOf w.db) script j → i = j) →
        ∀ script, w'.mMapScriptPubKeys.lookup script = w.mMapScriptPubKeys.lookup script) := by
  have whole := completed.whole separates pool
  obtain ⟨w', loaded, listed⟩ := whole.load separates
  refine ⟨w', loaded, ?_, ?_⟩
  · intro script
    rw [Bool.eq_iff_iff, listed.isMine_iff, whole.kept.listed.isMine_iff]
  · intro single script
    refine Option.ext fun i => ?_
    rw [listed.lookup_iff single, whole.kept.listed.lookup_iff single]

theorem separates_of_wpkh {masterKey : Bytes} {root : CKey} {child : Nat → CKey}
    (wpkh : Wpkh env child masterKey root) : Separates env where
  nodup i := by simp [wpkh.scripts]
  scripts {i j script} has has' here here' := by
    rw [wpkh.scripts, List.mem_singleton] at here here'
    exact wpkh.distinct has has'
      (payToKeyHash_inj (wpkh.hashSize _) (wpkh.hashSize _) (here.symm.trans here'))
  ids {i j pubkey other} has has' here here' same := by
    rw [wpkh.pubkeys, List.mem_singleton] at here here'
    subst here here'
    rw [wpkh.distinct has has' same]
  ownKey {i j pubkey} has has' here keyHash := by
    rw [wpkh.pubkeys, List.mem_singleton] at here
    subst here
    have size : (idAt env child j).length = 20 := wpkh.hashSize _
    rw [wpkh.scripts, List.headD_cons, keyHashOf, witnessProgram_payToKeyHash size] at keyHash
    have same : env.crypto.getID (pubkeyAt env child i) = idAt env child j := by
      simpa [size] using keyHash.symm
    exact wpkh.distinct has has' same

def startedWallet (range : Nat × Nat × Nat) : SpkMan Bool :=
  ((fresh sizedEnv none range).addDescriptorKey sizedEnv rootKey).1

def toppedWallet (range : Nat × Nat × Nat) : SpkMan Bool × Bool :=
  ((startedWallet range).topUp sizedEnv falconConfig 0).toOption.getD (startedWallet range, false)

/-- The wallet with the indices from the first on has its hybrid address again. -/
theorem reload_keeps_addresses_sample :
    (toppedWallet (0, 0, 0)).1.isMine (payToKeyHash hybridProgramAt0) = true ∧
    ∃ w', load sizedEnv (toppedWallet (0, 0, 0)).1.db = some w' ∧
      w'.isMine (payToKeyHash hybridProgramAt0) = true := by
  have mine : (toppedWallet (0, 0, 0)).1.isMine (payToKeyHash hybridProgramAt0) = true := by
    decide +kernel
  have completed : (toppedWallet (0, 0, 0)).2 = true := by decide +kernel
  have done : (startedWallet (0, 0, 0)).topUp sizedEnv falconConfig 0
      = .ok (toppedWallet (0, 0, 0)) :=
    eq_ok_of_toBool (by decide +kernel) (startedWallet (0, 0, 0), false)
  generalize toppedWallet (0, 0, 0) = result at mine completed done ⊢
  obtain ⟨topped, ok⟩ := result
  subst completed
  obtain ⟨w', loaded, same, -⟩ := @reload_keeps_addresses _ sizedEnv _ plainMasterKey
    (separates_of_wpkh sizedEnv_wpkh) (by decide)
    (.created ⟨rfl, rfl, rfl, rfl, rfl, rfl, rfl, rfl⟩ falconConfig 0 done)
  exact ⟨mine, w', loaded, (same _).trans mine⟩

/-- **A range from the second index on**: the first top-up completes and lists the first index as
well, which is gone when the wallet is loaded again. -/
theorem importedWallet_loses_address :
    (toppedWallet (1, 2, 1)).2 = true ∧
      (toppedWallet (1, 2, 1)).1.isMine (payToKeyHash plainProgram) = true ∧
      ∃ w', load sizedEnv (toppedWallet (1, 2, 1)).1.db = some w' ∧
        w'.isMine (payToKeyHash plainProgram) = false := by
  have loads : ((load sizedEnv (toppedWallet (1, 2, 1)).1.db).map
      fun w' => w'.isMine (payToKeyHash plainProgram)) = some false := by decide +kernel
  obtain ⟨w', loaded, lost⟩ := Option.map_eq_some_iff.mp loads
  exact ⟨by decide +kernel, by decide +kernel, w', loaded, lost⟩

end SpkMan

end QuantBTC.Wallet
