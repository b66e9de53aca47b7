/-
# Node.PqcPrecheck -- the structural precheck of post-quantum witnesses

`Consensus::CheckPQCSignatures` and the place of `ConnectBlock` that asks it.  It sees a
transaction without the outputs it spends, so it takes every witness of two elements for
a P2WPKH spend without a post-quantum signature, and every witness of four for one with.
The interpreter knows the output, and runs whatever script a P2WSH or Taproot output
commits to.
-/
import QuantBTC.Node.Header
import QuantBTC.Script.HybridWitness

namespace QuantBTC.Node

set_option autoImplicit false

open Primitives Script

/-! ## The precheck -/

structure BlockInvalid extends Invalid where
  debugMessage : String
deriving DecidableEq, Repr

def isPQCWitness (sigElem pkElem : Bytes) : Bool :=
  PqcScheme.dilithium.sizesMatch sigElem pkElem || PqcScheme.falcon.sizesMatch sigElem pkElem ||
    PqcScheme.falcon1024.sizesMatch sigElem pkElem || PqcScheme.sphincs.sizesMatch sigElem pkElem

def checkPQCInput (flags : ScriptFlags) (i : Nat) : List Bytes → Except BlockInvalid Unit
  | [] => .ok ()
  | [_, _, sigElem, pkElem] =>
    if isPQCWitness sigElem pkElem then .ok ()
    else .error
      { result := .consensus
        rejectReason := "bad-pqc-witness"
        debugMessage := s!"Input {i}: invalid PQC witness element sizes" }
  | [_, _] =>
    if .hybridSig ∈ flags then .error
      { result := .consensus
        rejectReason := "missing-pqc-sig"
        debugMessage := s!"Input {i}: missing required PQC signature (2-element witness)" }
    else .ok ()
  -- left to the interpreter
  | _ => .ok ()

def checkPQCInputs (flags : ScriptFlags) : Nat → List CTxIn → Except BlockInvalid Unit
  | _, [] => .ok ()
  | i, txin :: vin => do
      checkPQCInput flags i txin.scriptWitness
      checkPQCInputs flags (i + 1) vin

def checkPQCSignatures (tx : CTransaction) (flags : ScriptFlags) : Except BlockInvalid Unit :=
  if .pqc ∈ flags then checkPQCInputs flags 0 tx.vin else .ok ()

def connectPrecheck (flags : ScriptFlags) : List CTransaction → Except BlockInvalid Unit
  | [] => .ok ()
  | tx :: vtx => do
      if !tx.isCoinBase ∧ .hybridSig ∈ flags then
        match checkPQCSignatures tx flags with
        | .ok () => .ok ()
        | .error pqcState => .error { pqcState with result := .consensus }
      connectPrecheck flags vtx

/-! ## What it looks at -/

def PassesByShape (witness : List Bytes) : Prop :=
  witness.length ≠ 2 ∧
    (witness.length = 4 → isPQCWitness (witness.getD 2 []) (witness.getD 3 []) = true)

instance (witness : List Bytes) : Decidable (PassesByShape witness) :=
  inferInstanceAs (Decidable (_ ∧ _))

variable {flags : ScriptFlags}

variable {witness : List Bytes}

theorem checkPQCInput_ok_iff (mandatory : .hybridSig ∈ flags) {i : Nat} :
    checkPQCInput flags i witness = .ok () ↔ PassesByShape witness := by
  unfold checkPQCInput PassesByShape
  split
  · simp
  · simp
  · simp [mandatory]
  next empty four two =>
    refine iff_of_true rfl ⟨fun short => ?_, fun long => ?_⟩
    · obtain ⟨sig, pubkey, rfl⟩ := List.length_eq_two.mp short
      exact two _ _ rfl
    · match witness, long with
      | [_, _, _, _], _ => exact absurd rfl (four _ _ _ _)

theorem checkPQCInputs_ok_iff (mandatory : .hybridSig ∈ flags) {i : Nat} {vin : List CTxIn} :
    checkPQCInputs flags i vin = .ok () ↔ ∀ txin ∈ vin, PassesByShape txin.scriptWitness := by
  induction vin generalizing i with
  | nil => simp [checkPQCInputs]
  | cons txin vin ih =>
    rw [checkPQCInputs, List.forall_mem_cons, ← checkPQCInput_ok_iff mandatory, ← ih (i := i + 1)]
    cases checkPQCInput flags i txin.scriptWitness <;> simp [bind, Except.bind]

theorem checkPQCSignatures_ok_iff (mandatory : .hybridSig ∈ flags) (enabled : .pqc ∈ flags)
    {tx : CTransaction} :
    checkPQCSignatures tx flags = .ok () ↔ ∀ txin ∈ tx.vin, PassesByShape txin.scriptWitness := by
  rw [checkPQCSignatures, if_pos enabled, checkPQCInputs_ok_iff mandatory]

theorem connectPrecheck_ok_iff (mandatory : .hybridSig ∈ flags) {vtx : List CTransaction} :
    connectPrecheck flags vtx = .ok () ↔
      ∀ tx ∈ vtx, tx.isCoinBase = false → checkPQCSignatures tx flags = .ok () := by
  induction vtx with
  | nil => simp [connectPrecheck]
  | cons tx vtx ih =>
    rw [connectPrecheck, List.forall_mem_cons, ← ih]
    cases tx.isCoinBase with
    | true => simp
    | false => cases checkPQCSignatures tx flags <;> simp [mandatory, bind, Except.bind]

/-! ## What the interpreter looks at -/

def isKeyHashProgram (script : Bytes) : Bool :=
  match witnessProgram script with
  | some (0, program) => program.length == 20
  | _ => false

def isKeyHashInput (flags : ScriptFlags) (scriptSig scriptPubKey : Bytes) : Bool :=
  .witness ∈ flags && (isKeyHashProgram scriptPubKey ||
    (.p2sh ∈ flags && isPayToScriptHash scriptPubKey && scriptSig.head? == some 0x16 &&
      isKeyHashProgram scriptSig.tail))

theorem isKeyHashProgram_iff {script : Bytes} :
    isKeyHashProgram script = true ↔
      ∃ program : Bytes, witnessProgram script = some (0, program) ∧ program.length = 20 := by
  grind [isKeyHashProgram, Bool.false_eq_true]

theorem isKeyHashProgram_length {script : Bytes} (keyHash : isKeyHashProgram script = true) :
    script.length = 22 := by
  obtain ⟨program, read, size⟩ := isKeyHashProgram_iff.mp keyHash
  unfold witnessProgram at read
  grind

variable {ctx : VerifyContext}

theorem keyHashSpend_passesByShape (mandatory : .hybridSig ∈ ctx.flags) {program : Bytes}
    (spend : KeyHashSpend ctx program witness) : PassesByShape witness := by
  cases spend with
  | classical optional => exact absurd mandatory optional
  | keyOnly => exact ⟨nofun, nofun⟩
  | hybrid pqc =>
    refine ⟨nofun, fun _ => ?_⟩
    have sized := pqc.sized
    simp only [isLatticeSized, Bool.or_eq_true] at sized
    simp only [isPQCWitness, Bool.or_eq_true, List.getD_cons_succ, List.getD_cons_zero]
    tauto
  | legacy _ _ optional => exact absurd mandatory optional

theorem verifyProgramOf_passesByShape (mandatory : .hybridSig ∈ ctx.flags)
    (segwit : .witness ∈ ctx.flags) {script scriptSig expected : Bytes} {malleated : ScriptError}
    {stack : List Bytes} {isP2sh : Bool} {result : Bool × List Bytes}
    (keyHash : isKeyHashProgram script = true) (verified : verifyProgramOf ctx script scriptSig
      expected malleated witness stack isP2sh = .ok result) : PassesByShape witness := by
  obtain ⟨program, read, size⟩ := isKeyHashProgram_iff.mp keyHash
  simp only [verifyProgramOf, if_pos segwit, read, Outcome.bind_eq_ok_iff] at verified
  obtain ⟨_, -, _, accepted, -⟩ := verified
  rw [verifyWitnessProgram_keyHash ctx size, verifyKeyHash_iff size] at accepted
  exact keyHashSpend_passesByShape mandatory accepted

theorem evalScript_push22 {redeem : Bytes} (size : redeem.length = 22) :
    ∃ execdata, evalScript (ctx.under .base) [] (0x16 :: redeem) {} = .ok ([redeem], execdata) := by
  have read : getScriptOp (0x16 :: redeem) = .op (.push 22) redeem [] := by
    have taken : getScriptOp (0x16 :: redeem) = takeData (.push 22) 22 redeem := rfl
    grind [takeData, List.take_of_length_le, List.drop_of_length_le]
  have minimal : checkMinimalPush redeem (.push 22) = true := by
    simp [checkMinimalPush, size]
  have notTaproot : (ctx.under .base).sigversion ≠ .taproot := by rintro ⟨⟩
  refine ⟨{ mCodeseparatorPos := some 0xffffffff }, ?_⟩
  rw [evalScript, if_neg notTaproot, List.length_cons, size,
    evalLoop_push read rfl rfl (by omega) minimal (by simp)]
  rfl

theorem verifyScript_ok {scriptSig scriptPubKey : Bytes}
    (verified : verifyScript ctx scriptSig scriptPubKey witness = .ok ()) :
    (∃ stack result, verifyProgramOf ctx scriptPubKey scriptSig [] .witnessMalleated witness stack
        false = .ok result) ∧
      (.p2sh ∈ ctx.flags → isPayToScriptHash scriptPubKey = true →
        ∃ stackCopy result,
          evalScript (ctx.under .base) [] scriptSig {} = .ok stackCopy ∧
            verifyRedeemScript ctx scriptSig witness stackCopy.1 = .ok result) := by
  refine ⟨?_, fun p2sh scriptHash => ?_⟩
  · grind [verifyScript, Outcome.bind_eq_ok_iff]
  · simp only [verifyScript, if_pos (And.intro p2sh scriptHash), Outcome.bind_eq_ok_iff]
      at verified
    grind

theorem verifyScript_keyHash_shape (mandatory : .hybridSig ∈ ctx.flags)
    {scriptSig scriptPubKey : Bytes}
    (keyHash : isKeyHashInput ctx.flags scriptSig scriptPubKey = true)
    (verified : verifyScript ctx scriptSig scriptPubKey witness = .ok ()) :
    PassesByShape witness := by
  simp only [isKeyHashInput, Bool.and_eq_true, Bool.or_eq_true, decide_eq_true_eq,
    beq_iff_eq] at keyHash
  obtain ⟨segwit, bare | ⟨⟨⟨p2sh, scriptHash⟩, pushed⟩, nested⟩⟩ := keyHash
  · obtain ⟨⟨_, _, program⟩, -⟩ := verifyScript_ok verified
    exact verifyProgramOf_passesByShape mandatory segwit bare program
  · obtain ⟨stackCopy, _, evaluated, redeemed⟩ := (verifyScript_ok verified).2 p2sh scriptHash
    obtain ⟨redeem, rfl⟩ : ∃ redeem, scriptSig = 0x16 :: redeem := by
      cases scriptSig with
      | nil => cases pushed
      | cons byte redeem => exact ⟨redeem, by rw [Option.some.inj pushed]⟩
    obtain ⟨execdata, left⟩ := @evalScript_push22 ctx _ (isKeyHashProgram_length nested)
    rw [List.tail_cons] at nested left
    cases left.symm.trans evaluated
    simp only [verifyRedeemScript, Outcome.bind_eq_ok_iff] at redeemed
    obtain ⟨_, -, _, -, _, -, program⟩ := redeemed
    exact verifyProgramOf_passesByShape mandatory segwit nested program

/-! ## Agreement -/

section

variable (crypto : Crypto) (checker : CTransaction → Nat → BaseSignatureChecker)
  (spent : COutPoint → Bytes)

def ScriptsValid (flags : ScriptFlags) (tx : CTransaction) : Prop :=
  ∀ input ∈ tx.vin.zipIdx,
    verifyScript { crypto, checker := checker tx input.2, flags } input.1.scriptSig
      (spent input.1.prevout) input.1.scriptWitness = .ok ()

instance (flags : ScriptFlags) (tx : CTransaction) :
    Decidable (ScriptsValid crypto checker spent flags tx) :=
  List.decidableBAll _ _

def OthersPassByShape (flags : ScriptFlags) (tx : CTransaction) : Prop :=
  ∀ txin ∈ tx.vin, isKeyHashInput flags txin.scriptSig (spent txin.prevout) = false →
    PassesByShape txin.scriptWitness

instance (flags : ScriptFlags) (tx : CTransaction) :
    Decidable (OthersPassByShape spent flags tx) :=
  List.decidableBAll _ _

variable {crypto checker spent}

theorem ScriptsValid.checkPQCSignatures_iff (enabled : .pqc ∈ flags)
    (mandatory : .hybridSig ∈ flags) {tx : CTransaction}
    (valid : ScriptsValid crypto checker spent flags tx) :
    checkPQCSignatures tx flags = .ok () ↔ OthersPassByShape spent flags tx := by
  rw [checkPQCSignatures_ok_iff mandatory enabled]
  constructor
  · intro passes txin member _
    exact passes txin member
  · intro others txin member
    cases keyHash : isKeyHashInput flags txin.scriptSig (spent txin.prevout) with
    | false => exact others txin member keyHash
    | true =>
      obtain ⟨i, bound, rfl⟩ := List.getElem_of_mem member
      have verified := valid (tx.vin[i], i) (List.mk_mem_zipIdx_iff_getElem?.mpr (by simp))
      exact verifyScript_keyHash_shape mandatory keyHash verified

end

/-- **Where hybrid signatures are mandatory, the precheck accepts valid scripts exactly when
no input other than a P2WPKH spend has a witness of two elements, or one of four whose end
is not sized like a post-quantum signature and key**; and so does `ConnectBlock` for the
transactions of a block. -/
theorem pqcPrecheck_accepts_iff (crypto : Crypto)
    (checker : CTransaction → Nat → BaseSignatureChecker) (spent : COutPoint → Bytes)
    (flags : ScriptFlags) (enabled : .pqc ∈ flags) (mandatory : .hybridSig ∈ flags) :
    (∀ tx, ScriptsValid crypto checker spent flags tx →
        (checkPQCSignatures tx flags = .ok () ↔ OthersPassByShape spent flags tx)) ∧
      ∀ vtx : List CTransaction,
        (∀ tx ∈ vtx, tx.isCoinBase = false → ScriptsValid crypto checker spent flags tx) →
        (connectPrecheck flags vtx = .ok () ↔
          ∀ tx ∈ vtx, tx.isCoinBase = false → OthersPassByShape spent flags tx) := by
  refine ⟨fun tx valid => valid.checkPQCSignatures_iff enabled mandatory, fun vtx valid => ?_⟩
  rw [connectPrecheck_ok_iff mandatory]
  refine forall₂_congr fun tx member => forall_congr' fun spends => ?_
  exact (valid tx member spends).checkPQCSignatures_iff enabled mandatory

/-! ### Spends of the sample key -/

def spendWith (scriptWitness : List Bytes) : CTransaction where
  vin := [{ prevout := { hash := 1, n := 0 }, scriptWitness }]
  vout := [{ nValue := 1000 }]

def payToWitnessScriptHash (script : Bytes) : Bytes :=
  0x00 :: pushData (uint256Bytes (digitHashes.sha256 script))

def sampleFlags : ScriptFlags := (sampleContext true).mandatory.flags

def SpendsOutput (scriptPubKey : Bytes) (tx : CTransaction) : Prop :=
  ScriptsValid (sampleContext true).crypto (fun _ _ => sampleChecker true) (fun _ => scriptPubKey)
    sampleFlags tx

instance (scriptPubKey : Bytes) (tx : CTransaction) : Decidable (SpendsOutput scriptPubKey tx) :=
  inferInstanceAs (Decidable (ScriptsValid _ _ _ _ _))

theorem pqcPrecheck_accepts_falcon :
    .pqc ∈ sampleFlags ∧ .hybridSig ∈ sampleFlags ∧
      checkPQCSignatures (spendWith [sampleSig, samplePubkey, falconSig, falconPubkey]) sampleFlags
        = .ok () :=
  ⟨by decide, by decide,
    ((pqcPrecheck_accepts_iff (sampleContext true).crypto (fun _ _ => sampleChecker true)
      (fun _ => payToKeyHash hybridProgram) sampleFlags (by decide) (by decide)).1 _
      (by decide +kernel)).mpr (by decide +kernel)⟩

def singleKeyScript : Bytes := pushData samplePubkey ++ [0xac]

def multisigScript : Bytes :=
  0x52 :: pushData samplePubkey ++ pushData samplePubkey ++ [0x52, 0xae]

/-- Two P2WSH spends whose scripts are valid, and for which a block is rejected: of one key,
and of two keys that both sign. -/
theorem pqcPrecheck_rejects_scriptHash :
    .pqc ∈ sampleFlags ∧ .hybridSig ∈ sampleFlags ∧
      SpendsOutput (payToWitnessScriptHash singleKeyScript)
        (spendWith [sampleSig, singleKeyScript]) ∧
      connectPrecheck sampleFlags [spendWith [sampleSig, singleKeyScript]] = .error
        { result := .consensus
          rejectReason := "missing-pqc-sig"
          debugMessage := "Input 0: missing required PQC signature (2-element witness)" } ∧
      SpendsOutput (payToWitnessScriptHash multisigScript)
        (spendWith [[], sampleSig, sampleSig, multisigScript]) ∧
      connectPrecheck sampleFlags [spendWith [[], sampleSig, sampleSig, multisigScript]] = .error
        { result := .consensus
          rejectReason := "bad-pqc-witness"
          debugMessage := "Input 0: invalid PQC witness element sizes" } := by
  decide +kernel

end QuantBTC.Node
