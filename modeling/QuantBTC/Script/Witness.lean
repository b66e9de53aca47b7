/-
# Script.Witness -- `VerifyWitnessProgram` and `VerifyScript`

Witness programs, with the post-quantum extension of P2WPKH: a 20-byte v0 program is
spent by two elements (signature, public key), by three (and a post-quantum public key
that only binds the address) or by four (and a post-quantum signature too).
-/
import QuantBTC.Script.Checker
import QuantBTC.Script.Interpreter

namespace QuantBTC.Script

set_option autoImplicit false

open Primitives

def VerifyContext.under (ctx : VerifyContext) (sigversion : SigVersion) : EvalContext :=
  { ctx with sigversion }

variable (ctx : VerifyContext)

/-! ## Witness scripts -/

def Opcode.isOpSuccess : Opcode → Bool
  | .reserved | .ver | .cat | .substr | .left | .right | .invert | .and | .or | .xor
  | .reserved1 | .reserved2 | .mul2 | .div2 | .mul | .div | .mod | .lshift | .rshift => true
  | .unknown byte => byte != 0xff
  | _ => false

def findOpSuccess : Nat → Bytes → Outcome Bool
  | 0, _ => .ok false
  | fuel + 1, script =>
    match getScriptOp script with
    | .atEnd => .ok false
    | .truncated _ => setError .badOpcode
    | .op opcode _ rest =>
      if opcode.isOpSuccess then
        if .discourageOpSuccess ∈ ctx.flags then setError .discourageOpSuccess else .ok true
      else findOpSuccess fuel rest

def runWitnessScript (sigversion : SigVersion) (stack : List Bytes) (execScript : Bytes)
    (execdata : ScriptExecutionData) : Outcome Unit := do
  require (stack.all (·.length ≤ 520)) .pushSize
  let (stack, _) ← evalScript (ctx.under sigversion) stack.reverse execScript execdata
  require (stack.length == 1) .cleanStack
  require (castToBool (stack.headD [])) .evalFalse

def executeWitnessScript (sigversion : SigVersion) (stack : List Bytes) (execScript : Bytes)
    (execdata : ScriptExecutionData) : Outcome Unit :=
  if sigversion = .tapscript then do
    if ← findOpSuccess ctx execScript.length execScript then .ok ()
    else
      require (stack.length ≤ 1000) .stackSize
      runWitnessScript ctx sigversion stack execScript execdata
  else runWitnessScript ctx sigversion stack execScript execdata

/-! ## P2WPKH -/

def keyHashScript (program : Bytes) : Bytes :=
  0x76 :: 0xa9 :: pushData program ++ [0x88, 0xac]

def verifyEcdsa (program sig pubkey : Bytes) : Outcome Unit := do
  checkSignatureEncoding ctx.crypto ctx.flags sig
  checkPubKeyEncoding ctx.flags .witnessV0 pubkey
  let verified ← ask
    (ctx.checker.checkECDSASignature sig pubkey (keyHashScript program) .witnessV0)
  require verified .checkSigVerify

def isLatticeSized (pqcSig pqcPubkey : Bytes) : Bool :=
  PqcScheme.falcon.sizesMatch pqcSig pqcPubkey ||
    PqcScheme.falcon1024.sizesMatch pqcSig pqcPubkey ||
    PqcScheme.dilithium.sizesMatch pqcSig pqcPubkey

def checkPqc (program sig pqcSig pqcPubkey : Bytes) : Option Bool :=
  if isLatticeSized pqcSig pqcPubkey then
    ctx.checker.checkPQCSignature pqcSig pqcPubkey (keyHashScript program) .witnessV0
      (TransactionSignatureChecker.hashTypeOf (sig.getLastD 0))
  else ctx.checker.checkSPHINCSSignature pqcSig pqcPubkey sig (keyHashScript program) .witnessV0

def verifyKeyHashScript (program : Bytes) (stack : List Bytes) : Outcome Unit := do
  require (stack.length == 2) .witnessProgramMismatch
  require (.hybridSig ∉ ctx.flags) .pqcSig
  executeWitnessScript ctx .witnessV0 stack (keyHashScript program) {}

def isHybridAddr (program pubkey pqcPubkey : Bytes) : Bool :=
  ctx.crypto.hashes.hash160 (pubkey ++ pqcPubkey) == program

def isLegacyAddr (program pubkey : Bytes) : Bool :=
  ctx.crypto.hashes.hash160 pubkey == program

def verifyWithPqcSig (program sig pubkey pqcSig pqcPubkey : Bytes) : Outcome Unit := do
  require (isLatticeSized pqcSig pqcPubkey || PqcScheme.sphincs.sizesMatch pqcSig pqcPubkey)
    .pqcSigSize
  require (sig != [] && pubkey != []) .witnessProgramMismatch
  require (isHybridAddr ctx program pubkey pqcPubkey || isLegacyAddr ctx program pubkey)
    .witnessProgramMismatch
  let verified ← ask (checkPqc ctx program sig pqcSig pqcPubkey)
  require verified .pqcSig
  if isHybridAddr ctx program pubkey pqcPubkey then verifyEcdsa ctx program sig pubkey
  -- a legacy address falls through to the two elements that are left
  else verifyKeyHashScript ctx program [sig, pubkey]

def verifyWithPqcPubkey (program sig pubkey pqcPubkey : Bytes) : Outcome Unit := do
  require (sig != [] && pubkey != []) .witnessProgramMismatch
  require (isHybridAddr ctx program pubkey pqcPubkey) .witnessProgramMismatch
  verifyEcdsa ctx program sig pubkey

def verifyKeyHash (program : Bytes) : List Bytes → Outcome Unit
  | [sig, pubkey, pqcSig, pqcPubkey] => verifyWithPqcSig ctx program sig pubkey pqcSig pqcPubkey
  | [sig, pubkey, pqcPubkey] => verifyWithPqcPubkey ctx program sig pubkey pqcPubkey
  | stack => verifyKeyHashScript ctx program stack

/-! ## P2WSH -/

def verifyScriptHash (program : Bytes) (stack : List Bytes) : Outcome Unit :=
  match stack.getLast? with
  | none => setError .witnessProgramWitnessEmpty
  | some execScript => do
      require (uint256Bytes (ctx.crypto.hashes.sha256 execScript) == program)
        .witnessProgramMismatch
      executeWitnessScript ctx .witnessV0 stack.dropLast execScript {}

/-! ## Taproot -/

def taggedHash (hashes : HashFunctions) (tag : String) (data : Bytes) : Uint256 :=
  let tagHash := uint256Bytes (hashes.sha256 tag.toUTF8.data.toList)
  hashes.sha256 (tagHash ++ tagHash ++ data)

def computeTapleafHash (hashes : HashFunctions) (leafVersion : UInt8) (script : Bytes) : Uint256 :=
  taggedHash hashes "TapLeaf" (leafVersion :: vectorBytes script)

def computeTapbranchHash (hashes : HashFunctions) (a b : Bytes) : Uint256 :=
  taggedHash hashes "TapBranch" (if a < b then a ++ b else b ++ a)

def controlPath : Nat → Bytes → List Bytes
  | 0, _ => []
  | n + 1, bytes => bytes.take 32 :: controlPath n (bytes.drop 32)

def computeTaprootMerkleRoot (hashes : HashFunctions) (control : Bytes) (tapleafHash : Uint256) :
    Uint256 :=
  (controlPath ((control.length - 33) / 32) (control.drop 33)).foldl
    (fun k node => computeTapbranchHash hashes (uint256Bytes k) node) tapleafHash

def verifyTaprootCommitment (control program : Bytes) (tapleafHash : Uint256) : Bool :=
  ctx.crypto.checkTapTweak program ((control.drop 1).take 32)
    (computeTaprootMerkleRoot ctx.crypto.hashes control tapleafHash)
    (control.headD 0 &&& 1 != 0)

def witnessSize (stack : List Bytes) : Nat :=
  (writeCompactSize stack.length).length + (stack.map fun elem => (vectorBytes elem).length).sum

def verifyTaprootScript (witness : List Bytes) (program control script : Bytes)
    (stack : List Bytes) (execdata : ScriptExecutionData) : Outcome Unit := do
  require (33 ≤ control.length && control.length ≤ 33 + 32 * 128 && (control.length - 33) % 32 == 0)
    .taprootWrongControlSize
  let leafVersion := control.headD 0 &&& 0xfe
  let tapleafHash := computeTapleafHash ctx.crypto.hashes leafVersion script
  require (verifyTaprootCommitment ctx control program tapleafHash) .witnessProgramMismatch
  if leafVersion = 0xc0 then
    executeWitnessScript ctx .tapscript stack script
      { execdata with
        mTapleafHash := some tapleafHash
        mValidationWeightLeft := some (witnessSize witness + 50) }
  else
    require (.discourageUpgradableTaprootVersion ∉ ctx.flags) .discourageUpgradableTaprootVersion

def takeAnnex (stack : List Bytes) : List Bytes × ScriptExecutionData :=
  match stack.getLast? with
  | some (byte :: bytes) =>
    if 2 ≤ stack.length ∧ byte = 0x50 then
      (stack.dropLast,
        { mAnnex := some (some (ctx.crypto.hashes.sha256 (vectorBytes (byte :: bytes)))) })
    else (stack, { mAnnex := some none })
  | _ => (stack, { mAnnex := some none })

def verifyTaproot (program : Bytes) (witness : List Bytes) : Outcome Unit :=
  if .taproot ∈ ctx.flags then
    let (stack, execdata) := takeAnnex ctx witness
    match stack.reverse with
    | [] => setError .witnessProgramWitnessEmpty
    | [sig] => do
        let _ ← ctx.checker.checkSchnorrSignature sig program .taproot execdata
        .ok ()
    | control :: script :: below =>
      verifyTaprootScript ctx witness program control script below.reverse execdata
  else .ok ()

/-! ## Witness programs -/

def verifyWitnessProgram (witness : List Bytes) (witversion : Nat) (program : Bytes)
    (isP2sh : Bool) : Outcome Unit :=
  if witversion = 0 then
    if program.length = 32 then verifyScriptHash ctx program witness
    else if program.length = 20 then verifyKeyHash ctx program witness
    else setError .witnessProgramWrongLength
  else if witversion = 1 ∧ program.length = 32 ∧ !isP2sh then verifyTaproot ctx program witness
  -- `IsPayToAnchor`
  else if !isP2sh ∧ witversion = 1 ∧ program = [0x4e, 0x73] then .ok ()
  else
    require (.discourageUpgradableWitnessProgram ∉ ctx.flags) .discourageUpgradableWitnessProgram

theorem verifyWitnessProgram_keyHash {program : Bytes} (keyHash : program.length = 20)
    (witness : List Bytes) (isP2sh : Bool) :
    verifyWitnessProgram ctx witness 0 program isP2sh = verifyKeyHash ctx program witness := by
  simp [verifyWitnessProgram, keyHash]

def witnessProgram : Bytes → Option (Nat × Bytes)
  | version :: size :: program =>
    if program.length < 2 ∨ 40 < program.length then none
    else if version ≠ 0 ∧ (version < 0x51 ∨ 0x60 < version) then none
    else if size.toNat ≠ program.length then none
    else some (if version = 0 then 0 else version.toNat - 0x50, program)
  | _ => none

def payToKeyHash (program : Bytes) : Bytes := 0x00 :: pushData program

def isPayToScriptHash (script : Bytes) : Bool :=
  script.length == 23 && script.getD 0 0 == 0xa9 && script.getD 1 0 == 0x14 &&
    script.getD 22 0 == 0x87

def isPushOnlyFrom : Nat → Bytes → Bool
  | 0, _ => true
  | fuel + 1, script =>
    match getScriptOp script with
    | .atEnd => true
    | .truncated _ => false
    | .op opcode _ rest => opcode.isUncounted && isPushOnlyFrom fuel rest

def isPushOnly (script : Bytes) : Bool := isPushOnlyFrom script.length script

/-! ## Whole inputs -/

def topIsTrue : List Bytes → Bool
  | [] => false
  | top :: _ => castToBool top

def verifyProgramOf (script scriptSig expected : Bytes) (malleated : ScriptError)
    (witness stack : List Bytes) (isP2sh : Bool) : Outcome (Bool × List Bytes) :=
  if .witness ∈ ctx.flags then
    match witnessProgram script with
    | none => .ok (false, stack)
    | some (witversion, program) => do
        require (scriptSig == expected) malleated
        verifyWitnessProgram ctx witness witversion program isP2sh
        .ok (true, [stack.getLastD []])
  else .ok (false, stack)

def verifyRedeemScript (scriptSig : Bytes) (witness stack : List Bytes) :
    Outcome (Bool × List Bytes) := do
  require (isPushOnly scriptSig) .sigPushOnly
  match stack with
  | [] => .error .abort
  | pubKey2 :: st => do
      let (stack, _) ← evalScript (ctx.under .base) st pubKey2 {}
      require (topIsTrue stack) .evalFalse
      verifyProgramOf ctx pubKey2 scriptSig (pushData pubKey2) .witnessMalleatedP2sh witness stack
        true

def assertThat (holds : Bool) : Outcome Unit := if holds then .ok () else .error .abort

def verifyScript (scriptSig scriptPubKey : Bytes) (witness : List Bytes) : Outcome Unit := do
  require (.sigPushOnly ∉ ctx.flags || isPushOnly scriptSig) .sigPushOnly
  let (stackCopy, _) ← evalScript (ctx.under .base) [] scriptSig {}
  let (stack, _) ← evalScript (ctx.under .base) stackCopy scriptPubKey {}
  require (topIsTrue stack) .evalFalse
  let (bare, stack) ←
    verifyProgramOf ctx scriptPubKey scriptSig [] .witnessMalleated witness stack false
  let (nested, stack) ←
    if .p2sh ∈ ctx.flags ∧ isPayToScriptHash scriptPubKey then
      verifyRedeemScript ctx scriptSig witness stackCopy
    else .ok (false, stack)
  if .cleanStack ∈ ctx.flags then do
    assertThat (.p2sh ∈ ctx.flags && .witness ∈ ctx.flags)
    require (stack.length == 1) .cleanStack
  if .witness ∈ ctx.flags then do
    assertThat (.p2sh ∈ ctx.flags)
    require (bare || nested || witness == []) .witnessUnexpected

end QuantBTC.Script
