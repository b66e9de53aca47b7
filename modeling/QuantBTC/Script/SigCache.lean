/-
# Script.SigCache -- the signature cache

`SignatureCache` remembers signatures that verified, under the SHA-256 of a salt and
of what was checked; `CachingTransactionSignatureChecker` asks it before it verifies.
All its checks have the same shape (`cachedCheck`), which is one answer of the verdict
cache of `Theory.VerdictCache`; what differs is what the entry hashes.

The entry `ComputeEntryPQC` computes covers the signature, the key, the script, the script
version and one byte of the hash type, but not the signature hash: a success for one transaction
answers for every other one that shares these (`pqcCache_replays`).  `pqcCache_sound` is what
remains: a history is sound when queries with the same entry have the same signature hash.
-/
import QuantBTC.Script.Checker
import QuantBTC.Theory.VerdictCache

namespace QuantBTC.Script

set_option autoImplicit false

open Primitives Theory

variable (hashes : HashFunctions) (schemes : Schemes) (nonce : Uint256)

/-! ## Entries -/

def salt (domain : UInt8) : Bytes := uint256Bytes nonce ++ domain :: List.replicate 31 0

def entryBytesPQC (pqcSig pqcPubkey scriptCode : Bytes) (sigversion hashType : UInt8) : Bytes :=
  salt nonce 0x44 ++ pqcSig ++ pqcPubkey ++ scriptCode ++ [sigversion] ++ [hashType]

def computeEntryPQC (pqcSig pqcPubkey scriptCode : Bytes) (sigversion hashType : UInt8) : Uint256 :=
  hashes.sha256 (entryBytesPQC nonce pqcSig pqcPubkey scriptCode sigversion hashType)

/-! ## The caching checker -/

def cachedCheck (setValid : Finset Uint256) (store : Bool) (entry : Uint256)
    (check : Option Bool) : Finset Uint256 × Option Bool :=
  if entry ∈ setValid then (setValid, some true)
  else
    match check with
    | some true => (if store then insert entry setValid else setValid, some true)
    | other => (setValid, other)

def cachingChecker (txTo : CTransaction) (nIn : Nat) (amount : Int)
    (txdata : Option PrecomputedTransactionData) : TransactionSignatureChecker where
  txTo := txTo
  nIn := nIn
  amount := amount
  mMdb := .assertFail
  txdata := txdata

structure PqcQuery where
  txTo : CTransaction
  nIn : Nat
  amount : Int
  txdata : Option PrecomputedTransactionData
  pqcSig : Bytes
  pqcPubKey : Bytes
  scriptCode : Bytes
  sigversion : SigVersion
  nHashType : Int32
deriving DecidableEq, Repr

namespace PqcQuery

variable (query : PqcQuery)

def uncached : Option Bool :=
  (cachingChecker query.txTo query.nIn query.amount query.txdata).checkPQCSignature hashes schemes
    query.pqcSig query.pqcPubKey query.scriptCode query.sigversion query.nHashType

def sighash : Option Uint256 :=
  (cachingChecker query.txTo query.nIn query.amount query.txdata).sighash hashes
    query.scriptCode query.sigversion query.nHashType

def entryBytes : Bytes :=
  entryBytesPQC nonce query.pqcSig query.pqcPubKey query.scriptCode query.sigversion.toByte
    (query.nHashType &&& 0xff).toUInt32.toUInt8

def entry : Uint256 :=
  computeEntryPQC hashes nonce query.pqcSig query.pqcPubKey query.scriptCode
    query.sigversion.toByte (query.nHashType &&& 0xff).toUInt32.toUInt8

def checkPQCSignature (setValid : Finset Uint256) (store : Bool) :
    Finset Uint256 × Option Bool :=
  cachedCheck setValid store (query.entry hashes nonce) (query.uncached hashes schemes)

end PqcQuery

def cachedHistory {Query : Type}
    (check : Query → Finset Uint256 → Bool → Finset Uint256 × Option Bool) :
    Finset Uint256 → List (VerdictCache.Request Query Uint256) → List (Query × Bool)
  | _, [] => []
  | setValid, request :: rest =>
    match check request.query (setValid \ request.evicted) request.store with
    | (_, none) => []
    | (setValid, some result) => (request.query, result) :: cachedHistory check setValid rest

theorem cachedHistory_eq_run {Query : Type} (entry : Query → Uint256)
    (uncached : Query → Option Bool) (setValid : Finset Uint256)
    (requests : List (VerdictCache.Request Query Uint256)) :
    cachedHistory (fun query setValid store =>
      cachedCheck setValid store (entry query) (uncached query)) setValid requests
      = VerdictCache.run entry uncached setValid requests := by
  induction requests generalizing setValid with
  | nil => rfl
  | cons request rest ih =>
    have same : cachedCheck (setValid \ request.evicted) request.store (entry request.query)
        (uncached request.query) = VerdictCache.answer entry uncached setValid request := rfl
    grind [cachedHistory, VerdictCache.run]

def pqcRun : Finset Uint256 → List (VerdictCache.Request PqcQuery Uint256) → List (PqcQuery × Bool) :=
  cachedHistory fun query => query.checkPQCSignature hashes schemes nonce

/-! ## Post-quantum signatures -/

theorem PqcQuery.uncached_eq (query : PqcQuery) :
    query.uncached hashes schemes = (query.sighash hashes).map fun sighash =>
      TransactionSignatureChecker.verifyPqc schemes query.pqcSig query.pqcPubKey
        (uint256Bytes sighash) :=
  TransactionSignatureChecker.verifySighash_assertFail _ _ rfl _ _ _ _

/-- **A history in which queries with the same entry bytes have the same signature, key and
signature hash is sound**: a query is answered with success only if `CheckPQCSignature`
without the cache succeeds for it. -/
theorem pqcCache_sound (requests : List (VerdictCache.Request PqcQuery Uint256))
    (collisionFree : Set.InjOn hashes.sha256
      {bytes | ∃ request ∈ requests, request.query.entryBytes nonce = bytes})
    (agree : ∀ first ∈ requests, ∀ second ∈ requests,
      first.query.entryBytes nonce = second.query.entryBytes nonce →
        first.query.pqcSig = second.query.pqcSig ∧
        first.query.pqcPubKey = second.query.pqcPubKey ∧
        first.query.sighash hashes = second.query.sighash hashes) :
    ∀ answered ∈ pqcRun hashes schemes nonce ∅ requests, answered.2 = true →
      answered.1.uncached hashes schemes = some true := by
  have determines : VerdictCache.Determines (PqcQuery.entry hashes nonce)
      (PqcQuery.uncached hashes schemes)
      {query | ∃ request ∈ requests, request.query = query} := by
    rintro _ ⟨first, firstMem, rfl⟩ _ ⟨second, secondMem, rfl⟩ sameEntry succeeds
    have sameBytes := collisionFree ⟨first, firstMem, rfl⟩ ⟨second, secondMem, rfl⟩ sameEntry
    grind [PqcQuery.uncached_eq]
  have history : pqcRun hashes schemes nonce ∅ requests = _ :=
    cachedHistory_eq_run (PqcQuery.entry hashes nonce) (PqcQuery.uncached hashes schemes) ∅ requests
  rw [history]
  exact VerdictCache.run_sound determines (VerdictCache.backed_empty _)
    fun request mem => ⟨request, mem, rfl⟩

/-! ## A replayed signature -/

def spendQuery (nValue : Int) : PqcQuery where
  txTo := { vin := [{ prevout := ⟨7, 0⟩ }], vout := [{ nValue, scriptPubKey := [0x51] }] }
  nIn := 0
  amount := 1000
  txdata := none
  pqcSig := List.replicate 666 1
  pqcPubKey := List.replicate 897 2
  scriptCode := [0x76, 0xa9]
  sigversion := .witnessV0
  nHashType := 1

def schemesFor900 : Schemes where
  ecdsaVerify _ _ _ := false
  dilithiumVerify _ _ _ := false
  falconVerify msg _ _ :=
    (((spendQuery 900).sighash digitHashes).map uint256Bytes) == some msg
  falcon1024Verify _ _ _ := false
  sphincsVerify _ _ _ := false

theorem pqcCache_sound_repeated :
    pqcRun digitHashes schemesFor900 0 ∅ [⟨spendQuery 900, true, ∅⟩, ⟨spendQuery 900, false, ∅⟩]
        = [(spendQuery 900, true), (spendQuery 900, true)] ∧
      ∀ answered ∈ pqcRun digitHashes schemesFor900 0 ∅
          [⟨spendQuery 900, true, ∅⟩, ⟨spendQuery 900, false, ∅⟩],
        answered.2 = true → answered.1.uncached digitHashes schemesFor900 = some true :=
  ⟨by decide +kernel, pqcCache_sound digitHashes schemesFor900 0 _
    (by
      rintro _ ⟨first, firstMem, rfl⟩ _ ⟨second, secondMem, rfl⟩ _
      simp only [List.mem_cons, List.not_mem_nil, or_false] at firstMem secondMem
      rcases firstMem with rfl | rfl <;> rcases secondMem with rfl | rfl <;> rfl)
    (by
      intro first firstMem second secondMem _
      simp only [List.mem_cons, List.not_mem_nil, or_false] at firstMem secondMem
      rcases firstMem with rfl | rfl <;> rcases secondMem with rfl | rfl <;> exact ⟨rfl, rfl, rfl⟩)⟩

/-- Once the transaction that pays 900 has been checked and stored, the same signature
passes for the one that pays 1, which has another signature hash and for which
`CheckPQCSignature` fails. -/
theorem pqcCache_replays :
    pqcRun digitHashes schemesFor900 0 ∅ [⟨spendQuery 900, true, ∅⟩, ⟨spendQuery 1, true, ∅⟩]
        = [(spendQuery 900, true), (spendQuery 1, true)] ∧
      (spendQuery 1).uncached digitHashes schemesFor900 = some false ∧
      (spendQuery 1).sighash digitHashes ≠ (spendQuery 900).sighash digitHashes := by
  decide +kernel

end QuantBTC.Script
