/-
# Script.HybridBinding -- the keys a 20-byte program is spent with

A hybrid address hashes two public keys written one after the other, with nothing between
them.  The ECDSA key fixes where it ends: its first byte says its length
(`CPubKey::GetLen`), so no valid key is a proper beginning of another one
(`validSize_append_inj`).  `KeyHashSpend.preimage` says what each accepted witness tells
about the program: a string that hashes to it and starts with the ECDSA key.

The length of the third element is not looked at, so an empty one turns any two-element
spend into a three-element one: `accepts_with_empty_pqcPubkey`.
-/
import QuantBTC.Script.HybridWitness

namespace QuantBTC.Script

set_option autoImplicit false

open Primitives

/-! ## Where a public key ends -/

theorem validSize_append_inj {one two rest rest' : Bytes} (valid : pubKeyValidSize one = true)
    (valid' : pubKeyValidSize two = true) (same : one ++ rest = two ++ rest') :
    one = two ∧ rest = rest' := by
  cases one with
  | nil => cases valid
  | cons header one =>
    cases two with
    | nil => cases valid'
    | cons header' two =>
      obtain ⟨rfl, -⟩ := List.cons.inj same
      apply List.append_inj same
      rw [← eq_of_beq valid, ← eq_of_beq valid']

def RejectsInvalidKeys (checker : BaseSignatureChecker) : Prop :=
  ∀ sig pubkey scriptCode sigversion,
    checker.checkECDSASignature sig pubkey scriptCode sigversion = some true →
      pubKeyValidSize pubkey = true

theorem rejectsInvalidKeys_of_transaction {checker : BaseSignatureChecker} {hashes : HashFunctions}
    {schemes : Schemes} {transaction : TransactionSignatureChecker}
    (asks : checker.checkECDSASignature = transaction.checkECDSASignature hashes schemes) :
    RejectsInvalidKeys checker := by
  intro sig pubkey scriptCode sigversion verified
  rw [asks, TransactionSignatureChecker.checkECDSASignature] at verified
  grind [CPubKey.ofBytes]

/-! ## The keys of a witness -/

def ecdsaPubkey (witness : List Bytes) : Bytes := witness.getD 1 []

def pqcPubkey (witness : List Bytes) : Bytes := witness.getLastD []

def hashedStrings : List Bytes → List Bytes
  | [_, pubkey] => [pubkey]
  | [_, pubkey, pqcPubkey] => [pubkey ++ pqcPubkey]
  | [_, pubkey, _, pqcPubkey] => [pubkey ++ pqcPubkey, pubkey]
  | _ => []

def viaCombinedHash (ctx : VerifyContext) (program : Bytes) : List Bytes → Bool
  | [_, _, _] => true
  | [_, pubkey, _, pqcPubkey] => isHybridAddr ctx program pubkey pqcPubkey
  | _ => false

structure Preimage (ctx : VerifyContext) (program : Bytes) (witness : List Bytes) (rest : Bytes) :
    Prop where
  listed : ecdsaPubkey witness ++ rest ∈ hashedStrings witness
  hashes : ctx.crypto.hashes.hash160 (ecdsaPubkey witness ++ rest) = program
  combined : viaCombinedHash ctx program witness = true → rest = pqcPubkey witness

variable {ctx ctx' : VerifyContext} {program : Bytes} {witness witness' : List Bytes}

theorem KeyHashSpend.preimage (spend : KeyHashSpend ctx program witness) :
    ∃ rest, Preimage ctx program witness rest := by
  cases spend with
  | classical _ _ legacy _ =>
    refine ⟨[], ?_, ?_, nofun⟩
    · simp [ecdsaPubkey, hashedStrings]
    · simpa [ecdsaPubkey, isLegacyAddr] using legacy
  | keyOnly _ _ hybrid _ | hybrid _ hybrid _ =>
    refine ⟨_, ?_, ?_, fun _ => rfl⟩
    · simp [ecdsaPubkey, hashedStrings, pqcPubkey]
    · simpa [ecdsaPubkey, pqcPubkey, isHybridAddr] using hybrid
  | legacy _ notHybrid _ _ legacy _ =>
    refine ⟨[], ?_, ?_, fun hybrid => ?_⟩
    · simp [ecdsaPubkey, hashedStrings]
    · simpa [ecdsaPubkey, isLegacyAddr] using legacy
    · exact absurd (hybrid.symm.trans notHybrid) (by decide)

theorem KeyHashSpend.validKey (rejects : RejectsInvalidKeys ctx.checker)
    (spend : KeyHashSpend ctx program witness) : pubKeyValidSize (ecdsaPubkey witness) = true := by
  cases spend with
  | classical _ _ _ ecdsa | keyOnly _ _ _ ecdsa | hybrid _ _ ecdsa | legacy _ _ _ _ _ ecdsa =>
    apply rejects
    exact ecdsa.verified

/-! ## One program, one pair of keys -/

/-- **An address binds its keys**: any two witnesses accepted for one program, under any
flags and for any transactions, carry the same ECDSA key; if the combined hash matched for
both, they carry the same post-quantum key. -/
theorem keyHash_binds_keys (crypto : Crypto) (checker checker' : BaseSignatureChecker)
    (flags flags' : ScriptFlags) (rejects : RejectsInvalidKeys checker)
    (rejects' : RejectsInvalidKeys checker') {program : Bytes} (keyHash : program.length = 20)
    (witness witness' : List Bytes)
    (noCollision : Set.InjOn crypto.hashes.hash160
      {string | string ∈ hashedStrings witness ++ hashedStrings witness'})
    (isP2sh isP2sh' : Bool)
    (accepted : verifyWitnessProgram ⟨crypto, checker, flags⟩ witness 0 program isP2sh = .ok ())
    (accepted' :
      verifyWitnessProgram ⟨crypto, checker', flags'⟩ witness' 0 program isP2sh' = .ok ()) :
    ecdsaPubkey witness = ecdsaPubkey witness' ∧
      (viaCombinedHash ⟨crypto, checker, flags⟩ program witness = true →
        viaCombinedHash ⟨crypto, checker', flags'⟩ program witness' = true →
          pqcPubkey witness = pqcPubkey witness') := by
  rw [verifyWitnessProgram_keyHash _ keyHash, verifyKeyHash_iff keyHash] at accepted accepted'
  obtain ⟨rest, preimage⟩ := accepted.preimage
  obtain ⟨rest', preimage'⟩ := accepted'.preimage
  have oneString : ecdsaPubkey witness ++ rest = ecdsaPubkey witness' ++ rest' := by
    apply noCollision
    · exact List.mem_append_left _ preimage.listed
    · exact List.mem_append_right _ preimage'.listed
    · exact preimage.hashes.trans preimage'.hashes.symm
  obtain ⟨keys, rests⟩ :=
    validSize_append_inj (accepted.validKey rejects) (accepted'.validKey rejects') oneString
  refine ⟨keys, fun combined combined' => ?_⟩
  rw [← preimage.combined combined, ← preimage'.combined combined', rests]

def strictChecker (pqc : Bool) : BaseSignatureChecker :=
  { sampleChecker pqc with checkECDSASignature _ pubkey _ _ := some (pubKeyValidSize pubkey) }

theorem rejectsInvalidKeys_strict (pqc : Bool) : RejectsInvalidKeys (strictChecker pqc) :=
  fun _ _ _ _ verified => Option.some.inj verified

theorem sample_noCollision {strings : List Bytes}
    (within : ∀ string ∈ strings, string ∈ [samplePubkey, samplePubkey ++ falconPubkey]) :
    Set.InjOn digitHashes.hash160 {string | string ∈ strings} := fun _ left _ right same =>
  have distinct : ([samplePubkey, samplePubkey ++ falconPubkey].map digitHashes.hash160).Nodup := by
    decide +kernel
  List.inj_on_of_nodup_map distinct (within _ left) (within _ right) same

/-- The three-element and the four-element spend of one hybrid address. -/
theorem keyHash_binds_falcon :
    ecdsaPubkey [sampleSig, samplePubkey, falconPubkey]
        = ecdsaPubkey [sampleSig, samplePubkey, falconSig, falconPubkey] ∧
      pqcPubkey [sampleSig, samplePubkey, falconPubkey]
        = pqcPubkey [sampleSig, samplePubkey, falconSig, falconPubkey] :=
  have bound := keyHash_binds_keys (sampleContext true).crypto (strictChecker false)
    (strictChecker true) blockFlags (insert .hybridSig blockFlags) (rejectsInvalidKeys_strict false)
    (rejectsInvalidKeys_strict true) (show hybridProgram.length = 20 by decide +kernel)
    [sampleSig, samplePubkey, falconPubkey] [sampleSig, samplePubkey, falconSig, falconPubkey]
    (sample_noCollision (by simp [hashedStrings]))
    false false (by decide +kernel) (by decide +kernel)
  ⟨bound.1, bound.2 rfl (by decide +kernel)⟩

/-! ## A program of one key -/

def SplitKeySpend (ctx : VerifyContext) (key : Bytes) (witness : List Bytes) : Prop :=
  ∃ sig pubkey rest, witness = [sig, pubkey, rest] ∧ pubkey ++ rest = key ∧ sig ≠ [] ∧
    pubkey ≠ [] ∧ EcdsaVerified ctx (ctx.crypto.hashes.hash160 key) sig pubkey

theorem SplitKeySpend.empty {key : Bytes} (rejects : RejectsInvalidKeys ctx.checker)
    (valid : pubKeyValidSize key = true) (split : SplitKeySpend ctx key witness) :
    ∃ sig, witness = [sig, key, []] := by
  obtain ⟨sig, pubkey, rest, rfl, whole, -, -, ecdsa⟩ := split
  have validPubkey := rejects _ _ _ _ ecdsa.verified
  obtain ⟨rfl, rfl⟩ := validSize_append_inj validPubkey valid (whole.trans (List.append_nil _).symm)
  exact ⟨sig, rfl⟩

/-- **A program that hashes one key is spent by two elements, or by four of which the
post-quantum signature verified**, unless the witness is a three-element one that splits
the key. -/
theorem plain_program_forms_iff (ctx : VerifyContext) (key : Bytes)
    (keyHash : (ctx.crypto.hashes.hash160 key).length = 20) (witness : List Bytes)
    (noCollision : Set.InjOn ctx.crypto.hashes.hash160
      {string | string ∈ key :: hashedStrings witness}) (isP2sh : Bool) :
    (verifyWitnessProgram ctx witness 0 (ctx.crypto.hashes.hash160 key) isP2sh = .ok () →
        witness.length = 2 ∨ HybridVerified ctx (ctx.crypto.hashes.hash160 key) witness) ↔
      ¬ SplitKeySpend ctx key witness := by
  rw [verifyWitnessProgram_keyHash ctx keyHash, verifyKeyHash_iff keyHash]
  constructor
  · rintro sound ⟨sig, pubkey, rest, rfl, whole, sig_ne, pubkey_ne, ecdsa⟩
    have hybrid : isHybridAddr ctx (ctx.crypto.hashes.hash160 key) pubkey rest = true := by
      simp [isHybridAddr, whole]
    rcases sound (.keyOnly sig_ne pubkey_ne hybrid ecdsa) with two | ⟨_, _, _, _, four, -⟩
    · cases two
    · cases four
  · intro notSplit spend
    cases spend with
    | classical => exact .inl rfl
    | keyOnly sig_ne pubkey_ne hybrid ecdsa =>
      refine absurd ⟨_, _, _, rfl, ?_, sig_ne, pubkey_ne, ecdsa⟩ notSplit
      apply noCollision
      · simp [hashedStrings]
      · simp
      · exact eq_of_beq hybrid
    | hybrid pqc _ ecdsa | legacy pqc _ _ _ _ ecdsa =>
      exact .inr ⟨_, _, _, _, rfl, pqc.checker, ecdsa.verified⟩

theorem plain_program_forms_two :
    ([sampleSig, samplePubkey] : List Bytes).length = 2 ∨
      HybridVerified (sampleContext false) legacyProgram [sampleSig, samplePubkey] :=
  (plain_program_forms_iff (sampleContext false) samplePubkey (by decide +kernel)
    [sampleSig, samplePubkey] (sample_noCollision (by simp [hashedStrings])) false).mpr
    (fun ⟨_, _, _, three, _⟩ => nomatch three) (by decide +kernel)

theorem accepts_with_empty_pqcPubkey (keyHash : program.length = 20) {sig pubkey : Bytes}
    (sig_ne : sig ≠ []) (pubkey_ne : pubkey ≠ []) (isP2sh : Bool)
    (accepted : verifyWitnessProgram ctx [sig, pubkey] 0 program isP2sh = .ok ()) :
    verifyWitnessProgram ctx [sig, pubkey, []] 0 program isP2sh = .ok () := by
  rw [verifyWitnessProgram_keyHash ctx keyHash, verifyKeyHash_iff keyHash] at accepted ⊢
  cases accepted with
  | classical _ _ legacy ecdsa => grind [KeyHashSpend.keyOnly, isHybridAddr, isLegacyAddr]

theorem accepts_with_empty_sample :
    verifyWitnessProgram (sampleContext false) [sampleSig, samplePubkey, []] 0 legacyProgram false
      = .ok () :=
  accepts_with_empty_pqcPubkey (by decide +kernel) (by decide) (by decide) false (by decide +kernel)

/-- The two-element spend of a plain address and the same with an empty element added: both
are accepted, and the second is no form a plain address should have. -/
theorem plain_spend_grows :
    pubKeyValidSize samplePubkey = true ∧ legacyProgram = digitHashes.hash160 samplePubkey ∧
      verifyWitnessProgram ⟨(sampleContext false).crypto, strictChecker false, blockFlags⟩
        [sampleSig, samplePubkey] 0 legacyProgram false = .ok () ∧
      verifyWitnessProgram ⟨(sampleContext false).crypto, strictChecker false, blockFlags⟩
        [sampleSig, samplePubkey, []] 0 legacyProgram false = .ok () ∧
      ¬ (([sampleSig, samplePubkey, []] : List Bytes).length = 2 ∨
        HybridVerified ⟨(sampleContext false).crypto, strictChecker false, blockFlags⟩
          legacyProgram [sampleSig, samplePubkey, []]) := by
  refine ⟨by decide, rfl, by decide +kernel, by decide +kernel, ?_⟩
  rintro (two | ⟨_, _, _, _, four, -⟩)
  · cases two
  · cases four

end QuantBTC.Script
