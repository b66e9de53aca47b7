/-
# Script.HybridWitness -- when post-quantum signatures are mandatory

Every way to spend a 20-byte v0 program, and what `SCRIPT_VERIFY_HYBRID_SIG` changes.
`KeyHashSpend` lists the ways, one constructor each; `verifyKeyHash_iff` says that they
are exactly the witnesses `VerifyWitnessProgram` accepts.  The flag is looked at only
where the implied script is run, so it misses the three-element form and catches the
four-element form of a legacy address.
-/
import QuantBTC.Script.Witness

namespace QuantBTC.Script

set_option autoImplicit false

open Primitives

variable (ctx : VerifyContext)

/-! ## The implied script -/

theorem getScriptOp_push20 {program : Bytes} (keyHash : program.length = 20) (rest : Bytes) :
    getScriptOp (0x14 :: (program ++ rest)) = .op (.push 20) program rest := by
  have read : getScriptOp (0x14 :: (program ++ rest)) = takeData (.push 20) 20 (program ++ rest) :=
    rfl
  rw [read, takeData, List.take_left' keyHash, List.drop_left' keyHash]
  simp [keyHash]


theorem evalLoop_keyHash {program : Bytes} (keyHash : program.length = 20) (sig pubkey : Bytes)
    (execdata : ScriptExecutionData) :
    evalLoop (ctx.under .witnessV0) 25 (keyHashScript program)
        { stack := [pubkey, sig], codehash := keyHashScript program, execdata } = (do
      require (isLegacyAddr ctx program pubkey) .equalVerify
      let verified ← evalChecksigPreTapscript (ctx.under .witnessV0) sig pubkey
        (keyHashScript program)
      .ok { stack := [boolBytes verified], codehash := keyHashScript program, nOpCount := 4
            opcodePos := 5, execdata }) := by
  have script : keyHashScript program = 0x76 :: 0xa9 :: 0x14 :: (program ++ [0x88, 0xac]) := by
    simp [keyHashScript, pushData, keyHash]
  have minimal : checkMinimalPush program (.push 20) = true := by
    simp [checkMinimalPush, keyHash]
  generalize keyHashScript program = codehash at script ⊢
  let v0 := ctx.under .witnessV0
  have limited : v0.isLimited = true := rfl
  let hash := ctx.crypto.hashes.hash160 pubkey
  let state (nOpCount opcodePos : Nat) (stack : List Bytes) : EvalState :=
    { stack, codehash, nOpCount, opcodePos, execdata }
  have dup : evalLoop v0 25 codehash (state 0 0 [pubkey, sig])
      = evalLoop v0 24 (0xa9 :: 0x14 :: (program ++ [0x88, 0xac]))
          (state 1 1 [pubkey, pubkey, sig]) := by
    rw [script]
    exact evalLoop_plain_ok (state 1 0 [pubkey, pubkey, sig]) rfl limited rfl rfl
      (by simp [state]) rfl (by simp [state])
  have hash160 : evalLoop v0 24 (0xa9 :: 0x14 :: (program ++ [0x88, 0xac]))
        (state 1 1 [pubkey, pubkey, sig])
      = evalLoop v0 23 (0x14 :: (program ++ [0x88, 0xac])) (state 2 2 [hash, pubkey, sig]) :=
    evalLoop_plain_ok (state 2 1 [hash, pubkey, sig]) rfl limited rfl rfl
      (by simp [state]) rfl (by simp [state])
  have push : evalLoop v0 23 (0x14 :: (program ++ [0x88, 0xac])) (state 2 2 [hash, pubkey, sig])
      = evalLoop v0 22 [0x88, 0xac] (state 2 3 [program, hash, pubkey, sig]) :=
    evalLoop_push (getScriptOp_push20 keyHash _) rfl rfl (by omega) minimal (by simp [state])
  have compare : evalLoop v0 22 [0x88, 0xac] (state 2 3 [program, hash, pubkey, sig])
      = execOp v0 .equalVerify [0xac] (state 3 3 [program, hash, pubkey, sig]) >>=
        fun s => endStep s >>= evalLoop v0 21 [0xac] :=
    evalLoop_plain rfl limited rfl rfl (show 2 < 201 by decide)
  have checkSig : evalLoop v0 21 [0xac] (state 3 4 [pubkey, sig])
      = execOp v0 .checkSig [] (state 4 4 [pubkey, sig]) >>=
        fun s => endStep s >>= evalLoop v0 20 [] :=
    evalLoop_plain rfl limited rfl rfl (show 3 < 201 by decide)
  have compared : execOp v0 .equalVerify [0xac] (state 3 3 [program, hash, pubkey, sig])
      = if isLegacyAddr ctx program pubkey then .ok (state 3 3 [pubkey, sig])
        else setError .equalVerify := rfl
  have verified : execOp v0 .checkSig [] (state 4 4 [pubkey, sig])
      = evalChecksigPreTapscript v0 sig pubkey codehash >>= fun verified =>
        .ok (state 4 4 [boolBytes verified]) := by
    show (evalChecksigPreTapscript v0 sig pubkey codehash >>= _) >>= _ = _
    cases evalChecksigPreTapscript v0 sig pubkey codehash <;> rfl
  refine (dup.trans (hash160.trans (push.trans compare))).trans ?_
  rw [compared]
  split
  next legacy =>
    refine checkSig.trans ?_
    rw [verified, legacy]
    cases evalChecksigPreTapscript v0 sig pubkey codehash <;> rfl
  next other =>
    rw [Bool.eq_false_iff.mpr other]
    rfl

/-! ## Accepted witnesses -/

structure EcdsaVerified (program sig pubkey : Bytes) : Prop where
  encodedSig : checkSignatureEncoding ctx.crypto ctx.flags sig = .ok ()
  encodedPubkey : checkPubKeyEncoding ctx.flags .witnessV0 pubkey = .ok ()
  verified : ctx.checker.checkECDSASignature sig pubkey (keyHashScript program) .witnessV0 = some true

variable {pubkey : Bytes}

theorem verifyEcdsa_iff {program sig : Bytes} :
    verifyEcdsa ctx program sig pubkey = .ok () ↔ EcdsaVerified ctx program sig pubkey := by
  simp only [verifyEcdsa, Outcome.bind_eq_ok_iff, require_eq_ok_iff, ask_eq_ok_iff]
  constructor
  · rintro ⟨_, encodedSig, _, encodedPubkey, _, verified, rfl⟩
    exact ⟨encodedSig, encodedPubkey, verified⟩
  · rintro ⟨encodedSig, encodedPubkey, verified⟩
    exact ⟨_, encodedSig, _, encodedPubkey, _, verified, rfl⟩

theorem evalChecksigPreTapscript_iff {program sig : Bytes} :
    evalChecksigPreTapscript (ctx.under .witnessV0) sig pubkey (keyHashScript program) = .ok true
      ↔ EcdsaVerified ctx program sig pubkey := by
  have kept : dropSignature (ctx.under .witnessV0) (keyHashScript program) sig
      = .ok (keyHashScript program) := rfl
  simp only [evalChecksigPreTapscript, kept, Outcome.ok_bind, Outcome.bind_eq_ok_iff,
    ask_eq_ok_iff]
  constructor
  · rintro ⟨_, encodedSig, _, encodedPubkey, verified, answer, ended⟩
    split at ended
    · cases ended
    · cases ended
      exact ⟨encodedSig, encodedPubkey, answer⟩
  · rintro ⟨encodedSig, encodedPubkey, verified⟩
    exact ⟨_, encodedSig, _, encodedPubkey, true, verified, rfl⟩

theorem executeWitnessScript_keyHash_iff {program : Bytes} (keyHash : program.length = 20)
    {sig : Bytes} :
    executeWitnessScript ctx .witnessV0 [sig, pubkey] (keyHashScript program) {} = .ok () ↔
      (sig.length ≤ 520 ∧ pubkey.length ≤ 520) ∧ isLegacyAddr ctx program pubkey = true ∧
        EcdsaVerified ctx program sig pubkey := by
  have size : (keyHashScript program).length = 25 := by simp [keyHashScript, pushData, keyHash]
  have limit : (!(ctx.under .witnessV0).isLimited || decide (25 ≤ 10000)) = true := rfl
  have evaluated : evalScript (ctx.under .witnessV0) [pubkey, sig] (keyHashScript program) {} = (do
      require (isLegacyAddr ctx program pubkey) .equalVerify
      let verified ← evalChecksigPreTapscript (ctx.under .witnessV0) sig pubkey
        (keyHashScript program)
      .ok ([boolBytes verified], { mCodeseparatorPos := some 0xffffffff })) := by
    have notTaproot : (ctx.under .witnessV0).sigversion ≠ .taproot := nofun
    rw [evalScript, if_neg notTaproot, size, limit]
    simp only [require, if_true, Outcome.ok_bind]
    rw [evalLoop_keyHash ctx keyHash]
    cases isLegacyAddr ctx program pubkey with
    | false => rfl
    | true => cases evalChecksigPreTapscript (ctx.under .witnessV0) sig pubkey _ <;> rfl
  rw [← evalChecksigPreTapscript_iff]
  show runWitnessScript _ _ _ _ _ = _ ↔ _
  simp only [runWitnessScript, List.reverse_cons, List.reverse_nil, List.nil_append,
    List.cons_append, evaluated, Outcome.bind_eq_ok_iff, require_eq_ok_iff]
  constructor
  · rintro ⟨_, short, _, ⟨_, legacy, verified, checked, left⟩, _, -, top⟩
    obtain rfl := Except.ok.inj left
    cases verified with
    | false => cases top
    | true => exact ⟨by simpa using short, legacy, checked⟩
  · rintro ⟨short, legacy, checked⟩
    exact ⟨(), by simpa using short, _, ⟨(), legacy, true, checked, rfl⟩, (), rfl, rfl⟩

structure PqcVerified (program sig pubkey pqcSig pqcPubkey : Bytes) : Prop where
  sized : (isLatticeSized pqcSig pqcPubkey || PqcScheme.sphincs.sizesMatch pqcSig pqcPubkey) = true
  sig_ne : sig ≠ []
  pubkey_ne : pubkey ≠ []
  verified : checkPqc ctx program sig pqcSig pqcPubkey = some true

inductive KeyHashSpend (program : Bytes) : List Bytes → Prop where
  /-- signature and key, where post-quantum signatures are optional -/
  | classical {sig pubkey : Bytes} (optional : .hybridSig ∉ ctx.flags)
      (short : sig.length ≤ 520 ∧ pubkey.length ≤ 520)
      (legacy : isLegacyAddr ctx program pubkey = true)
      (ecdsa : EcdsaVerified ctx program sig pubkey) : KeyHashSpend program [sig, pubkey]
  /-- the post-quantum key given to match a hybrid address, its signature not -/
  | keyOnly {sig pubkey pqcPubkey : Bytes} (sig_ne : sig ≠ []) (pubkey_ne : pubkey ≠ [])
      (hybrid : isHybridAddr ctx program pubkey pqcPubkey = true)
      (ecdsa : EcdsaVerified ctx program sig pubkey) : KeyHashSpend program [sig, pubkey, pqcPubkey]
  /-- both signatures on a hybrid address -/
  | hybrid {sig pubkey pqcSig pqcPubkey : Bytes}
      (pqc : PqcVerified ctx program sig pubkey pqcSig pqcPubkey)
      (hybrid : isHybridAddr ctx program pubkey pqcPubkey = true)
      (ecdsa : EcdsaVerified ctx program sig pubkey) :
      KeyHashSpend program [sig, pubkey, pqcSig, pqcPubkey]
  /-- both signatures on a legacy address, where post-quantum signatures are optional -/
  | legacy {sig pubkey pqcSig pqcPubkey : Bytes}
      (pqc : PqcVerified ctx program sig pubkey pqcSig pqcPubkey)
      (notHybrid : isHybridAddr ctx program pubkey pqcPubkey = false)
      (optional : .hybridSig ∉ ctx.flags) (short : sig.length ≤ 520 ∧ pubkey.length ≤ 520)
      (legacy : isLegacyAddr ctx program pubkey = true)
      (ecdsa : EcdsaVerified ctx program sig pubkey) :
      KeyHashSpend program [sig, pubkey, pqcSig, pqcPubkey]

variable {ctx} {program : Bytes}

theorem verifyKeyHashScript_iff (keyHash : program.length = 20) {stack : List Bytes} :
    verifyKeyHashScript ctx program stack = .ok () ↔
      ∃ sig pubkey, stack = [sig, pubkey] ∧ .hybridSig ∉ ctx.flags ∧
        (sig.length ≤ 520 ∧ pubkey.length ≤ 520) ∧ isLegacyAddr ctx program pubkey = true ∧
        EcdsaVerified ctx program sig pubkey := by
  simp only [verifyKeyHashScript, Outcome.bind_eq_ok_iff, require_eq_ok_iff, beq_iff_eq,
    decide_eq_true_eq]
  constructor
  · rintro ⟨_, two, _, optional, executed⟩
    obtain ⟨sig, pubkey, rfl⟩ := List.length_eq_two.mp two
    exact ⟨sig, pubkey, rfl, optional, (executeWitnessScript_keyHash_iff ctx keyHash).mp executed⟩
  · rintro ⟨sig, pubkey, rfl, optional, passed⟩
    exact ⟨(), rfl, (), optional, (executeWitnessScript_keyHash_iff ctx keyHash).mpr passed⟩

theorem verifyWithPqcSig_iff (keyHash : program.length = 20) {sig pqcSig pqcPubkey : Bytes} :
    verifyWithPqcSig ctx program sig pubkey pqcSig pqcPubkey = .ok () ↔
      KeyHashSpend ctx program [sig, pubkey, pqcSig, pqcPubkey] := by
  simp only [verifyWithPqcSig, Outcome.bind_eq_ok_iff, require_eq_ok_iff, ask_eq_ok_iff]
  constructor
  · rintro ⟨_, sized, _, nonempty, _, -, _, verified, _, rfl, ended⟩
    obtain ⟨sig_ne, pubkey_ne⟩ : sig ≠ [] ∧ pubkey ≠ [] := by simpa using nonempty
    have pqc : PqcVerified ctx program sig pubkey pqcSig pqcPubkey :=
      ⟨sized, sig_ne, pubkey_ne, verified⟩
    split at ended
    next hybrid => exact .hybrid pqc hybrid ((verifyEcdsa_iff ctx).mp ended)
    next other =>
      obtain ⟨_, _, same, optional, short, legacy, ecdsa⟩ :=
        (verifyKeyHashScript_iff keyHash).mp ended
      cases same
      exact .legacy pqc (by simpa using other) optional short legacy ecdsa
  · intro spend
    cases spend with
    | hybrid pqc hybrid ecdsa =>
      refine ⟨(), pqc.sized, (), by simp [pqc.sig_ne, pqc.pubkey_ne], (), by simp [hybrid], true,
        pqc.verified, (), rfl, ?_⟩
      rw [if_pos hybrid]
      exact (verifyEcdsa_iff ctx).mpr ecdsa
    | legacy pqc notHybrid optional short legacy ecdsa =>
      refine ⟨(), pqc.sized, (), by simp [pqc.sig_ne, pqc.pubkey_ne], (), by simp [legacy], true,
        pqc.verified, (), rfl, ?_⟩
      grind [verifyKeyHashScript_iff]

theorem verifyWithPqcPubkey_iff {sig pqcPubkey : Bytes} :
    verifyWithPqcPubkey ctx program sig pubkey pqcPubkey = .ok () ↔
      KeyHashSpend ctx program [sig, pubkey, pqcPubkey] := by
  simp only [verifyWithPqcPubkey, Outcome.bind_eq_ok_iff, require_eq_ok_iff, verifyEcdsa_iff]
  constructor
  · rintro ⟨_, nonempty, _, hybrid, ecdsa⟩
    obtain ⟨sig_ne, pubkey_ne⟩ : sig ≠ [] ∧ pubkey ≠ [] := by simpa using nonempty
    exact .keyOnly sig_ne pubkey_ne hybrid ecdsa
  · intro spend
    cases spend with
    | keyOnly sig_ne pubkey_ne hybrid ecdsa =>
      exact ⟨(), by simp [sig_ne, pubkey_ne], (), hybrid, ecdsa⟩

theorem verifyKeyHash_iff (keyHash : program.length = 20) {witness : List Bytes} :
    verifyKeyHash ctx program witness = .ok () ↔ KeyHashSpend ctx program witness := by
  unfold verifyKeyHash
  split
  · exact verifyWithPqcSig_iff keyHash
  · exact verifyWithPqcPubkey_iff
  next notFour notThree =>
    rw [verifyKeyHashScript_iff keyHash]
    constructor
    · rintro ⟨sig, pubkey, rfl, optional, short, legacy, ecdsa⟩
      exact .classical optional short legacy ecdsa
    · intro spend
      cases spend with
      | classical optional short legacy ecdsa =>
        exact ⟨_, _, rfl, optional, short, legacy, ecdsa⟩
      | keyOnly => exact absurd rfl (notThree _ _ _)
      | hybrid | legacy => exact absurd rfl (notFour _ _ _ _)

def VerifyContext.mandatory (ctx : VerifyContext) : VerifyContext :=
  { ctx with flags := insert .hybridSig ctx.flags }

/-! ### Spends of a sample key -/

def sampleChecker (pqc : Bool) : BaseSignatureChecker where
  checkECDSASignature _ _ _ _ := some true
  checkSchnorrSignature _ _ _ _ := setError .schnorrSig
  checkSPHINCSSignature _ _ _ _ _ := some pqc
  checkPQCSignature _ _ _ _ _ := some pqc
  checkLockTime _ := false
  checkSequence _ := false

def blockFlags : ScriptFlags :=
  {.p2sh, .witness, .taproot, .derSig, .checkLockTimeVerify, .checkSequenceVerify, .nullDummy, .pqc}

def sampleContext (pqc : Bool) : VerifyContext where
  crypto := { hashes := digitHashes, checkLowS _ := true, checkTapTweak _ _ _ _ := false }
  checker := sampleChecker pqc
  flags := blockFlags

def sampleSig : Bytes := [0x30, 6, 2, 1, 1, 2, 1, 1, 1]

def samplePubkey : Bytes := 0x02 :: List.replicate 32 7

def falconSig : Bytes := List.replicate 666 3

def falconPubkey : Bytes := List.replicate 897 5

def legacyProgram : Bytes := digitHashes.hash160 samplePubkey

def hybridProgram : Bytes := digitHashes.hash160 (samplePubkey ++ falconPubkey)

/-! ## What the flag requires -/

def HybridVerified (ctx : VerifyContext) (program : Bytes) (witness : List Bytes) : Prop :=
  ∃ sig pubkey pqcSig pqcPubkey, witness = [sig, pubkey, pqcSig, pqcPubkey] ∧
    (ctx.checker.checkPQCSignature pqcSig pqcPubkey (keyHashScript program) .witnessV0
        (TransactionSignatureChecker.hashTypeOf (sig.getLastD 0)) = some true ∨
      ctx.checker.checkSPHINCSSignature pqcSig pqcPubkey sig (keyHashScript program) .witnessV0
        = some true) ∧
    ctx.checker.checkECDSASignature sig pubkey (keyHashScript program) .witnessV0 = some true

def EcdsaOnlySpend (ctx : VerifyContext) (program : Bytes) (witness : List Bytes) : Prop :=
  ∃ sig pubkey pqcPubkey, witness = [sig, pubkey, pqcPubkey] ∧ sig ≠ [] ∧ pubkey ≠ [] ∧
    isHybridAddr ctx program pubkey pqcPubkey = true ∧ EcdsaVerified ctx program sig pubkey

theorem PqcVerified.checker {sig pqcSig pqcPubkey : Bytes}
    (pqc : PqcVerified ctx program sig pubkey pqcSig pqcPubkey) :
    ctx.checker.checkPQCSignature pqcSig pqcPubkey (keyHashScript program) .witnessV0
        (TransactionSignatureChecker.hashTypeOf (sig.getLastD 0)) = some true ∨
      ctx.checker.checkSPHINCSSignature pqcSig pqcPubkey sig (keyHashScript program) .witnessV0
        = some true := by
  have verified := pqc.verified
  grind [checkPqc]

/-- **Where post-quantum signatures are mandatory, an accepted spend carries one that
verified, unless it is a three-element spend that passes the ECDSA check.** -/
theorem mandatory_hybrid_iff (ctx : VerifyContext) (mandatory : .hybridSig ∈ ctx.flags)
    {program : Bytes} (keyHash : program.length = 20) (witness : List Bytes) (isP2sh : Bool) :
    (verifyWitnessProgram ctx witness 0 program isP2sh = .ok () →
        HybridVerified ctx program witness) ↔
      ¬ EcdsaOnlySpend ctx program witness := by
  rw [verifyWitnessProgram_keyHash ctx keyHash, verifyKeyHash_iff keyHash]
  constructor
  · rintro sound ⟨sig, pubkey, pqcPubkey, rfl, sig_ne, pubkey_ne, hybrid, ecdsa⟩
    obtain ⟨_, _, _, _, four, -⟩ := sound (.keyOnly sig_ne pubkey_ne hybrid ecdsa)
    cases four
  · intro notEcdsaOnly spend
    cases spend with
    | classical optional => exact absurd mandatory optional
    | keyOnly sig_ne pubkey_ne hybrid ecdsa =>
      exact absurd ⟨_, _, _, rfl, sig_ne, pubkey_ne, hybrid, ecdsa⟩ notEcdsaOnly
    | hybrid pqc _ ecdsa => exact ⟨_, _, _, _, rfl, pqc.checker, ecdsa.verified⟩
    | legacy _ _ optional => exact absurd mandatory optional

theorem mandatory_hybrid_falcon :
    .hybridSig ∈ (sampleContext true).mandatory.flags ∧ hybridProgram.length = 20 ∧
      HybridVerified (sampleContext true).mandatory hybridProgram
        [sampleSig, samplePubkey, falconSig, falconPubkey] :=
  ⟨by decide, by decide +kernel,
    (mandatory_hybrid_iff (sampleContext true).mandatory (by decide) (by decide +kernel)
      [sampleSig, samplePubkey, falconSig, falconPubkey] false).mpr nofun (by decide +kernel)⟩

/-- With the flag set, an address of the ECDSA key alone is spent by that key: the witness
has an empty third element, and no post-quantum signature would verify. -/
theorem ecdsa_spends_mandatory_hybrid :
    .hybridSig ∈ (sampleContext false).mandatory.flags ∧
      .witness ∈ (sampleContext false).mandatory.flags ∧ legacyProgram.length = 20 ∧
      verifyWitnessProgram (sampleContext false).mandatory [sampleSig, samplePubkey, []] 0
        legacyProgram false = .ok () ∧
      ¬ HybridVerified (sampleContext false).mandatory legacyProgram
        [sampleSig, samplePubkey, []] :=
  ⟨by decide, by decide, by decide +kernel, by decide +kernel, nofun⟩

/-! ## What the flag rejects -/

structure LegacyPqcSpend (ctx : VerifyContext) (program sig pubkey pqcSig pqcPubkey : Bytes) :
    Prop where
  pqc : PqcVerified ctx program sig pubkey pqcSig pqcPubkey
  notHybrid : isHybridAddr ctx program pubkey pqcPubkey = false
  legacy : isLegacyAddr ctx program pubkey = true
  short : sig.length ≤ 520 ∧ pubkey.length ≤ 520
  ecdsa : EcdsaVerified ctx program sig pubkey

theorem ecdsaVerified_mandatory_iff {sig : Bytes} :
    EcdsaVerified ctx.mandatory program sig pubkey ↔ EcdsaVerified ctx program sig pubkey := by
  have encodedSig : checkSignatureEncoding ctx.mandatory.crypto ctx.mandatory.flags sig
      = checkSignatureEncoding ctx.crypto ctx.flags sig := by
    simp [checkSignatureEncoding, VerifyContext.mandatory]
  have encodedPubkey : checkPubKeyEncoding ctx.mandatory.flags .witnessV0 pubkey
      = checkPubKeyEncoding ctx.flags .witnessV0 pubkey := by
    simp [checkPubKeyEncoding, VerifyContext.mandatory]
  constructor
  · rintro ⟨sigOk, pubkeyOk, verified⟩
    exact ⟨encodedSig ▸ sigOk, encodedPubkey ▸ pubkeyOk, verified⟩
  · rintro ⟨sigOk, pubkeyOk, verified⟩
    exact ⟨encodedSig ▸ sigOk, encodedPubkey ▸ pubkeyOk, verified⟩

/-- **Setting the flag keeps an accepted four-element spend, unless its address commits to
the ECDSA key alone.** -/
theorem hybrid_flag_accepts_iff (ctx : VerifyContext) (optional : .hybridSig ∉ ctx.flags)
    {program : Bytes} (keyHash : program.length = 20) (sig pubkey pqcSig pqcPubkey : Bytes)
    (isP2sh : Bool) :
    (verifyWitnessProgram ctx [sig, pubkey, pqcSig, pqcPubkey] 0 program isP2sh = .ok () →
        verifyWitnessProgram ctx.mandatory [sig, pubkey, pqcSig, pqcPubkey] 0 program isP2sh
          = .ok ()) ↔
      ¬ LegacyPqcSpend ctx program sig pubkey pqcSig pqcPubkey := by
  simp only [verifyWitnessProgram_keyHash _ keyHash, verifyKeyHash_iff keyHash]
  constructor
  · rintro accepts ⟨pqc, notHybrid, legacy, short, ecdsa⟩
    have spend := accepts (.legacy pqc notHybrid optional short legacy ecdsa)
    cases spend with
    | hybrid _ hybrid => exact absurd (hybrid.symm.trans notHybrid) (by decide)
    | legacy _ _ stillOptional => exact stillOptional (Finset.mem_insert_self _ _)
  · intro notLegacy spend
    cases spend with
    | hybrid pqc hybrid ecdsa =>
      exact .hybrid ⟨pqc.sized, pqc.sig_ne, pqc.pubkey_ne, pqc.verified⟩ hybrid
        (ecdsaVerified_mandatory_iff.mpr ecdsa)
    | legacy pqc notHybrid _ short legacy ecdsa =>
      exact absurd ⟨pqc, notHybrid, legacy, short, ecdsa⟩ notLegacy

theorem hybrid_flag_accepts_falcon :
    .hybridSig ∉ (sampleContext true).flags ∧ hybridProgram.length = 20 ∧
      verifyWitnessProgram (sampleContext true).mandatory
        [sampleSig, samplePubkey, falconSig, falconPubkey] 0 hybridProgram false = .ok () :=
  ⟨by decide, by decide +kernel,
    (hybrid_flag_accepts_iff (sampleContext true) (by decide) (by decide +kernel) sampleSig
      samplePubkey falconSig falconPubkey false).mpr
      (fun legacy => absurd legacy.notHybrid (by decide +kernel)) (by decide +kernel)⟩

/-- The flag freezes an address of the ECDSA key alone: the same witness, whose post-quantum
signature verifies, is accepted without the flag and fails with `SCRIPT_ERR_PQC_SIG` with it. -/
theorem hybrid_flag_freezes_legacy :
    verifyWitnessProgram (sampleContext true) [sampleSig, samplePubkey, falconSig, falconPubkey] 0
        legacyProgram false = .ok () ∧
      verifyWitnessProgram (sampleContext true).mandatory
        [sampleSig, samplePubkey, falconSig, falconPubkey] 0 legacyProgram false
          = .error (.script .pqcSig) := by
  decide +kernel

end QuantBTC.Script
