/-
# Script.Interpreter -- `EvalScript`

The stack machine.  A stack is a list with its top in front.  One operation is
`execOp`; `evalStep` adds the checks made on every operation, executed or not, and
`evalLoop` runs the bytes of the script.  The signature checker is a record of
functions, so a result about the interpreter holds for every checker.
-/
import QuantBTC.Script.Encoding

namespace QuantBTC.Script

set_option autoImplicit false

open Primitives

/-! ## Checkers and execution data -/

structure ScriptExecutionData where
  mTapleafHash : Option Uint256 := none
  mCodeseparatorPos : Option UInt32 := none
  /-- the hash of the annex, when one is present -/
  mAnnex : Option (Option Uint256) := none
  mValidationWeightLeft : Option Int := none
  mOutputHash : Option Uint256 := none
deriving DecidableEq, Repr

structure BaseSignatureChecker where
  checkECDSASignature (sig pubkey scriptCode : Bytes) (sigversion : SigVersion) : Option Bool
  checkSchnorrSignature (sig pubkey : Bytes) (sigversion : SigVersion)
    (execdata : ScriptExecutionData) : Outcome ScriptExecutionData
  checkSPHINCSSignature (pqcSig pqcPubkey ecdsaSig scriptCode : Bytes)
    (sigversion : SigVersion) : Option Bool
  checkPQCSignature (pqcSig pqcPubKey scriptCode : Bytes) (sigversion : SigVersion)
    (nHashType : Int32) : Option Bool
  checkLockTime (nLockTime : Int) : Bool
  checkSequence (nSequence : Int) : Bool

structure VerifyContext where
  crypto : Crypto
  checker : BaseSignatureChecker
  flags : ScriptFlags

structure EvalContext extends VerifyContext where
  sigversion : SigVersion

/-! ## Conditionals -/

structure ConditionStack where
  mStackSize : Nat := 0
  mFirstFalsePos : Option Nat := none
deriving DecidableEq, Repr

namespace ConditionStack

def empty (vfExec : ConditionStack) : Bool := vfExec.mStackSize == 0

def allTrue (vfExec : ConditionStack) : Bool := vfExec.mFirstFalsePos.isNone

def pushBack (vfExec : ConditionStack) (f : Bool) : ConditionStack where
  mStackSize := vfExec.mStackSize + 1
  mFirstFalsePos :=
    if vfExec.mFirstFalsePos = none ∧ f = false then some vfExec.mStackSize
    else vfExec.mFirstFalsePos

def popBack (vfExec : ConditionStack) : ConditionStack where
  mStackSize := vfExec.mStackSize - 1
  mFirstFalsePos :=
    if vfExec.mFirstFalsePos = some (vfExec.mStackSize - 1) then none else vfExec.mFirstFalsePos

def toggleTop (vfExec : ConditionStack) : ConditionStack :=
  match vfExec.mFirstFalsePos with
  | none => { vfExec with mFirstFalsePos := some (vfExec.mStackSize - 1) }
  | some pos =>
    if pos = vfExec.mStackSize - 1 then { vfExec with mFirstFalsePos := none } else vfExec

end ConditionStack

/-! ## Opcode classes -/

def Opcode.isPush : Opcode → Bool
  | .push _ | .pushdata1 | .pushdata2 | .pushdata4 => true
  | _ => false

def Opcode.isUncounted : Opcode → Bool
  | .push _ | .pushdata1 | .pushdata2 | .pushdata4 | .negate1 | .reserved | .small _ => true
  | _ => false

def Opcode.isDisabled : Opcode → Bool
  | .cat | .substr | .left | .right | .invert | .and | .or | .xor | .mul2 | .div2 | .mul | .div
  | .mod | .lshift | .rshift => true
  | _ => false

def Opcode.isConditional : Opcode → Bool
  | .opIf | .opNotIf | .verIf | .verNotIf | .opElse | .endIf => true
  | _ => false

/-! ## The state -/

structure EvalState where
  stack : List Bytes
  altstack : List Bytes := []
  vfExec : ConditionStack := {}
  /-- the script from the last executed `OP_CODESEPARATOR` on -/
  codehash : Bytes
  nOpCount : Nat := 0
  opcodePos : Nat := 0
  execdata : ScriptExecutionData
deriving DecidableEq, Repr

def boolBytes : Bool → Bytes
  | true => [1]
  | false => []

/-! ## Operations on the stack -/

def stackOp (opcode : Opcode) (stack : List Bytes) : Option (List Bytes) :=
  match opcode, stack with
  | .drop2, _ :: _ :: st => some st
  | .dup2, x2 :: x1 :: st => some (x2 :: x1 :: x2 :: x1 :: st)
  | .dup3, x3 :: x2 :: x1 :: st => some (x3 :: x2 :: x1 :: x3 :: x2 :: x1 :: st)
  | .over2, x4 :: x3 :: x2 :: x1 :: st => some (x2 :: x1 :: x4 :: x3 :: x2 :: x1 :: st)
  | .rot2, x6 :: x5 :: x4 :: x3 :: x2 :: x1 :: st => some (x2 :: x1 :: x6 :: x5 :: x4 :: x3 :: st)
  | .swap2, x4 :: x3 :: x2 :: x1 :: st => some (x2 :: x1 :: x4 :: x3 :: st)
  | .ifDup, x :: st => some (if castToBool x then x :: x :: st else x :: st)
  | .depth, st => some (serializeNum st.length :: st)
  | .drop, _ :: st => some st
  | .dup, x :: st => some (x :: x :: st)
  | .nip, x2 :: _ :: st => some (x2 :: st)
  | .over, x2 :: x1 :: st => some (x1 :: x2 :: x1 :: st)
  | .rot, x3 :: x2 :: x1 :: st => some (x1 :: x3 :: x2 :: st)
  | .swap, x2 :: x1 :: st => some (x1 :: x2 :: st)
  | .tuck, x2 :: x1 :: st => some (x2 :: x1 :: x2 :: st)
  | .size, x :: st => some (serializeNum x.length :: x :: st)
  | _, _ => none

def unaryNum (opcode : Opcode) (bn : Int) : Int :=
  match opcode with
  | .add1 => bn + 1
  | .sub1 => bn - 1
  | .negate => -bn
  | .abs => if bn < 0 then -bn else bn
  | .not => if bn = 0 then 1 else 0
  | _ => if bn ≠ 0 then 1 else 0

def binaryNum (opcode : Opcode) (bn1 bn2 : Int) : Int :=
  let ofBool (b : Bool) : Int := if b then 1 else 0
  match opcode with
  | .add => bn1 + bn2
  | .sub => bn1 - bn2
  | .boolAnd => ofBool (bn1 ≠ 0 && bn2 ≠ 0)
  | .boolOr => ofBool (bn1 ≠ 0 || bn2 ≠ 0)
  | .numEqual | .numEqualVerify => ofBool (bn1 = bn2)
  | .numNotEqual => ofBool (bn1 ≠ bn2)
  | .lessThan => ofBool (bn1 < bn2)
  | .greaterThan => ofBool (bn1 > bn2)
  | .lessThanOrEqual => ofBool (bn1 ≤ bn2)
  | .greaterThanOrEqual => ofBool (bn1 ≥ bn2)
  | .min => if bn1 < bn2 then bn1 else bn2
  | _ => if bn1 > bn2 then bn1 else bn2

def hashOp (hashes : HashFunctions) (opcode : Opcode) (vch : Bytes) : Bytes :=
  match opcode with
  | .ripemd160 => hashes.ripemd160 vch
  | .sha1 => hashes.sha1 vch
  | .sha256 => uint256Bytes (hashes.sha256 vch)
  | .hash160 => hashes.hash160 vch
  | _ => uint256Bytes (hashes.hash256 vch)

variable (ctx : EvalContext)

def pickOrRoll (roll : Bool) : List Bytes → Outcome (List Bytes)
  | top :: x :: st => do
      let n ← scriptNum ctx.flags 4 top
      if n < 0 ∨ ((x :: st).length : Int) ≤ n then setError .invalidStackOperation
      else
        let vch := (x :: st).getD n.toNat []
        if roll then .ok (vch :: (x :: st).eraseIdx n.toNat) else .ok (vch :: x :: st)
  | _ => setError .invalidStackOperation

/-! ## Checking signatures -/

def dropSignature (scriptCode vchSig : Bytes) : Outcome Bytes :=
  if ctx.sigversion = .base then
    let (dropped, found) := findAndDelete scriptCode (pushData vchSig)
    if 0 < found ∧ .constScriptCode ∈ ctx.flags then setError .sigFindAndDelete else .ok dropped
  else .ok scriptCode

def evalChecksigPreTapscript (vchSig vchPubKey codehash : Bytes) : Outcome Bool := do
  let scriptCode ← dropSignature ctx codehash vchSig
  checkSignatureEncoding ctx.crypto ctx.flags vchSig
  checkPubKeyEncoding ctx.flags ctx.sigversion vchPubKey
  let fSuccess ← ask (ctx.checker.checkECDSASignature vchSig vchPubKey scriptCode ctx.sigversion)
  if !fSuccess ∧ .nullFail ∈ ctx.flags ∧ vchSig ≠ [] then setError .sigNullFail
  else .ok fSuccess

def chargeSigop (sig : Bytes) (execdata : ScriptExecutionData) : Outcome ScriptExecutionData :=
  if sig = [] then .ok execdata
  else
    match execdata.mValidationWeightLeft with
    | none => .error .abort
    | some left =>
      if left - 50 < 0 then setError .tapscriptValidationWeight
      else .ok { execdata with mValidationWeightLeft := some (left - 50) }

def evalChecksigTapscript (sig pubkey : Bytes) (execdata : ScriptExecutionData) :
    Outcome (Bool × ScriptExecutionData) := do
  let execdata ← chargeSigop sig execdata
  let success := sig ≠ []
  if pubkey.length = 0 then setError .pubkeyType
  else if pubkey.length = 32 then
    if success then
      let execdata ← ctx.checker.checkSchnorrSignature sig pubkey ctx.sigversion execdata
      .ok (true, execdata)
    else .ok (false, execdata)
  else if .discourageUpgradablePubkeyType ∈ ctx.flags then setError .discourageUpgradablePubkeyType
  else .ok (success, execdata)

def evalChecksig (sig pubkey codehash : Bytes) (execdata : ScriptExecutionData) :
    Outcome (Bool × ScriptExecutionData) :=
  match ctx.sigversion with
  | .base | .witnessV0 => do
      let success ← evalChecksigPreTapscript ctx sig pubkey codehash
      .ok (success, execdata)
  | .tapscript => evalChecksigTapscript ctx sig pubkey execdata
  | .taproot => .error .abort

def multiSigLoop (scriptCode : Bytes) : List Bytes → List Bytes → Outcome Bool
  | [], _ => .ok true
  | _ :: _, [] => .ok false
  | sig :: sigs, key :: keys => do
      checkSignatureEncoding ctx.crypto ctx.flags sig
      checkPubKeyEncoding ctx.flags ctx.sigversion key
      let fOk ← ask (ctx.checker.checkECDSASignature sig key scriptCode ctx.sigversion)
      let left := if fOk then sigs else sig :: sigs
      if keys.length < left.length then .ok false else multiSigLoop scriptCode left keys

def checkMultiSig (s : EvalState) : Outcome (Bool × List Bytes × Nat) := do
  require (ctx.sigversion != .tapscript) .tapscriptCheckMultiSig
  require (1 ≤ s.stack.length) .invalidStackOperation
  let nKeysCount ← scriptNum ctx.flags 4 (s.stack.getD 0 [])
  require (0 ≤ nKeysCount && nKeysCount ≤ 20) .pubkeyCount
  let nKeys := nKeysCount.toNat
  require (s.nOpCount + nKeys ≤ 201) .opCount
  require (nKeys + 2 ≤ s.stack.length) .invalidStackOperation
  let nSigsCount ← scriptNum ctx.flags 4 (s.stack.getD (nKeys + 1) [])
  require (0 ≤ nSigsCount && nSigsCount ≤ nKeysCount) .sigCount
  let nSigs := nSigsCount.toNat
  require (nKeys + nSigs + 3 ≤ s.stack.length) .invalidStackOperation
  let keys := (s.stack.drop 1).take nKeys
  let sigs := (s.stack.drop (nKeys + 2)).take nSigs
  let scriptCode ← sigs.foldlM (dropSignature ctx) s.codehash
  let fSuccess ← multiSigLoop ctx scriptCode sigs keys
  require (fSuccess || .nullFail ∉ ctx.flags || sigs.all (· == [])) .sigNullFail
  -- one argument more is taken off the stack, the dummy
  let dummy := s.stack.getD (nKeys + nSigs + 2) []
  require (.nullDummy ∉ ctx.flags || dummy == []) .sigNullDummy
  .ok (fSuccess, s.stack.drop (nKeys + nSigs + 3), s.nOpCount + nKeys)

/-! ## One operation -/

def pushOrVerify (verifying : Bool) (error : ScriptError) (result : Bool) (s : EvalState)
    (stack : List Bytes) : Outcome EvalState :=
  if verifying then
    if result then .ok { s with stack } else setError error
  else .ok { s with stack := boolBytes result :: stack }

def execIf (negated : Bool) (s : EvalState) : Outcome EvalState :=
  if s.vfExec.allTrue then
    match s.stack with
    | [] => setError .unbalancedConditional
    | vch :: st => do
        let minimal := vch == [] || vch == [1]
        require (ctx.sigversion != .tapscript || minimal) .tapscriptMinimalIf
        require (ctx.sigversion != .witnessV0 || .minimalIf ∉ ctx.flags || minimal) .minimalIf
        let fValue := castToBool vch != negated
        .ok { s with stack := st, vfExec := s.vfExec.pushBack fValue }
  else .ok { s with vfExec := s.vfExec.pushBack false }

def execCheckLockTime (s : EvalState) : Outcome EvalState :=
  if .checkLockTimeVerify ∈ ctx.flags then
    match s.stack with
    | [] => setError .invalidStackOperation
    | top :: _ => do
        let nLockTime ← scriptNum ctx.flags 5 top
        require (0 ≤ nLockTime) .negativeLockTime
        require (ctx.checker.checkLockTime nLockTime) .unsatisfiedLockTime
        .ok s
  else .ok s

def execCheckSequence (s : EvalState) : Outcome EvalState :=
  if .checkSequenceVerify ∈ ctx.flags then
    match s.stack with
    | [] => setError .invalidStackOperation
    | top :: _ => do
        let nSequence ← scriptNum ctx.flags 5 top
        require (0 ≤ nSequence) .negativeLockTime
        require (nSequence.toNat.testBit 31 || ctx.checker.checkSequence nSequence)
          .unsatisfiedLockTime
        .ok s
  else .ok s

def execCheckSig (verifying : Bool) (s : EvalState) : Outcome EvalState :=
  match s.stack with
  | vchPubKey :: vchSig :: st => do
      let (fSuccess, execdata) ← evalChecksig ctx vchSig vchPubKey s.codehash s.execdata
      pushOrVerify verifying .checkSigVerify fSuccess { s with execdata } st
  | _ => setError .invalidStackOperation

def execCheckSigAdd (s : EvalState) : Outcome EvalState := do
  require (ctx.sigversion == .tapscript) .badOpcode
  match s.stack with
  | pubkey :: vchNum :: sig :: st => do
      let num ← scriptNum ctx.flags 4 vchNum
      let (success, execdata) ← evalChecksig ctx sig pubkey s.codehash s.execdata
      .ok { s with stack := serializeNum (num + if success then 1 else 0) :: st, execdata }
  | _ => setError .invalidStackOperation

def execCheckMultiSig (verifying : Bool) (s : EvalState) : Outcome EvalState := do
  let (fSuccess, st, nOpCount) ← checkMultiSig ctx s
  pushOrVerify verifying .checkMultiSigVerify fSuccess { s with nOpCount } st

def execBinaryNum (opcode : Opcode) (s : EvalState) : Outcome EvalState :=
  match s.stack with
  | vch2 :: vch1 :: st => do
      let bn1 ← scriptNum ctx.flags 4 vch1
      let bn2 ← scriptNum ctx.flags 4 vch2
      let result := serializeNum (binaryNum opcode bn1 bn2)
      if opcode = .numEqualVerify then
        if castToBool result then .ok { s with stack := st } else setError .numEqualVerify
      else .ok { s with stack := result :: st }
  | _ => setError .invalidStackOperation

def execOp (opcode : Opcode) (rest : Bytes) (s : EvalState) : Outcome EvalState :=
  match opcode with
  | .negate1 => .ok { s with stack := serializeNum (-1) :: s.stack }
  | .small n => .ok { s with stack := serializeNum n.toNat :: s.stack }
  | .nop => .ok s
  | .checkLockTimeVerify => execCheckLockTime ctx s
  | .checkSequenceVerify => execCheckSequence ctx s
  | .nop1 | .nop4 | .nop5 | .nop6 | .nop7 | .nop8 | .nop9 | .nop10 => do
      require (.discourageUpgradableNops ∉ ctx.flags) .discourageUpgradableNops
      .ok s
  | .opIf => execIf ctx false s
  | .opNotIf => execIf ctx true s
  | .opElse => do
      require (!s.vfExec.empty) .unbalancedConditional
      .ok { s with vfExec := s.vfExec.toggleTop }
  | .endIf => do
      require (!s.vfExec.empty) .unbalancedConditional
      .ok { s with vfExec := s.vfExec.popBack }
  | .verify =>
    match s.stack with
    | [] => setError .invalidStackOperation
    | top :: st => if castToBool top then .ok { s with stack := st } else setError .verify
  | .opReturn => setError .opReturn
  | .toAltStack =>
    match s.stack with
    | [] => setError .invalidStackOperation
    | top :: st => .ok { s with stack := st, altstack := top :: s.altstack }
  | .fromAltStack =>
    match s.altstack with
    | [] => setError .invalidAltstackOperation
    | top :: rest => .ok { s with stack := top :: s.stack, altstack := rest }
  | .drop2 | .dup2 | .dup3 | .over2 | .rot2 | .swap2 | .ifDup | .depth | .drop | .dup | .nip
  | .over | .rot | .swap | .tuck | .size =>
    match stackOp opcode s.stack with
    | none => setError .invalidStackOperation
    | some stack => .ok { s with stack }
  | .pick => do
      let stack ← pickOrRoll ctx false s.stack
      .ok { s with stack }
  | .roll => do
      let stack ← pickOrRoll ctx true s.stack
      .ok { s with stack }
  | .equal | .equalVerify =>
    match s.stack with
    | x2 :: x1 :: st => pushOrVerify (opcode == .equalVerify) .equalVerify (x1 == x2) s st
    | _ => setError .invalidStackOperation
  | .add1 | .sub1 | .negate | .abs | .not | .notEqual0 =>
    match s.stack with
    | [] => setError .invalidStackOperation
    | top :: st => do
        let bn ← scriptNum ctx.flags 4 top
        .ok { s with stack := serializeNum (unaryNum opcode bn) :: st }
  | .add | .sub | .boolAnd | .boolOr | .numEqual | .numEqualVerify | .numNotEqual | .lessThan
  | .greaterThan | .lessThanOrEqual | .greaterThanOrEqual | .min | .max =>
    execBinaryNum ctx opcode s
  | .within =>
    match s.stack with
    | vch3 :: vch2 :: vch1 :: st => do
        let bn1 ← scriptNum ctx.flags 4 vch1
        let bn2 ← scriptNum ctx.flags 4 vch2
        let bn3 ← scriptNum ctx.flags 4 vch3
        .ok { s with stack := boolBytes (bn2 ≤ bn1 && bn1 < bn3) :: st }
    | _ => setError .invalidStackOperation
  | .ripemd160 | .sha1 | .sha256 | .hash160 | .hash256 =>
    match s.stack with
    | [] => setError .invalidStackOperation
    | vch :: st => .ok { s with stack := hashOp ctx.crypto.hashes opcode vch :: st }
  | .codeSeparator =>
    .ok { s with
      codehash := rest
      execdata := { s.execdata with mCodeseparatorPos := some (UInt32.ofNat s.opcodePos) } }
  | .checkSig => execCheckSig ctx false s
  | .checkSigVerify => execCheckSig ctx true s
  | .checkSigAdd => execCheckSigAdd ctx s
  | .checkMultiSig => execCheckMultiSig ctx false s
  | .checkMultiSigVerify => execCheckMultiSig ctx true s
  | _ => setError .badOpcode

/-! ## Evaluation -/

def EvalContext.isLimited : Bool := ctx.sigversion == .base || ctx.sigversion == .witnessV0

def dispatch (opcode : Opcode) (data rest : Bytes) (s : EvalState) : Outcome EvalState :=
  let fExec := s.vfExec.allTrue
  if fExec ∧ opcode.isPush then do
    require (.minimalData ∉ ctx.flags || checkMinimalPush data opcode) .minimalData
    .ok { s with stack := data :: s.stack }
  else if fExec ∨ opcode.isConditional then execOp ctx opcode rest s
  else .ok s

def endStep (s : EvalState) : Outcome EvalState := do
  require (s.stack.length + s.altstack.length ≤ 1000) .stackSize
  .ok { s with opcodePos := s.opcodePos + 1 }

def evalStep (opcode : Opcode) (data rest : Bytes) (s : EvalState) : Outcome EvalState := do
  require (data.length ≤ 520) .pushSize
  let counted := ctx.isLimited && !opcode.isUncounted
  let s := { s with nOpCount := if counted then s.nOpCount + 1 else s.nOpCount }
  require (!counted || s.nOpCount ≤ 201) .opCount
  require (!opcode.isDisabled) .disabledOpcode
  require (!(opcode == .codeSeparator && ctx.sigversion == .base && .constScriptCode ∈ ctx.flags))
    .opCodeSeparator
  let s ← dispatch ctx opcode data rest s
  endStep s

def evalLoop : Nat → Bytes → EvalState → Outcome EvalState
  | 0, _, s => .ok s
  | fuel + 1, script, s =>
    match getScriptOp script with
    | .atEnd => .ok s
    | .truncated _ => setError .badOpcode
    | .op opcode data rest => do
        let s ← evalStep ctx opcode data rest s
        evalLoop fuel rest s

theorem evalLoop_of_length_le {fuel fuel' : Nat} {script : Bytes} {s : EvalState}
    (enough : script.length ≤ fuel) (enough' : script.length ≤ fuel') :
    evalLoop ctx fuel script s = evalLoop ctx fuel' script s := by
  induction fuel generalizing fuel' script s with
  | zero =>
    obtain rfl := List.length_eq_zero_iff.mp (Nat.le_zero.mp enough)
    cases fuel' <;> rfl
  | succ fuel ih =>
    cases fuel' with
    | zero =>
      obtain rfl := List.length_eq_zero_iff.mp (Nat.le_zero.mp enough')
      rfl
    | succ fuel' =>
      unfold evalLoop
      split
      · rfl
      · rfl
      next read =>
        have shorter := length_getScriptOp read
        congr 1
        funext s'
        exact ih (by omega) (by omega)

def evalScript (stack : List Bytes) (script : Bytes) (execdata : ScriptExecutionData) :
    Outcome (List Bytes × ScriptExecutionData) := do
  if ctx.sigversion = .taproot then .error .abort
  require (!ctx.isLimited || script.length ≤ 10000) .scriptSize
  let s ← evalLoop ctx script.length script
    { stack, codehash := script
      execdata := { execdata with mCodeseparatorPos := some 0xffffffff } }
  require s.vfExec.empty .unbalancedConditional
  .ok (s.stack, s.execdata)

/-! ## Iterations outside any conditional -/

theorem endStep_eq_ok {s : EvalState} (fits : s.stack.length + s.altstack.length ≤ 1000) :
    endStep s = .ok { s with opcodePos := s.opcodePos + 1 } := by
  simp [endStep, require, fits]

section

variable {ctx : EvalContext} {fuel : Nat} {script data rest : Bytes} {opcode : Opcode}
  {s : EvalState}

def Opcode.isPlain (opcode : Opcode) : Bool :=
  !opcode.isUncounted && !opcode.isDisabled && opcode != .codeSeparator

theorem evalLoop_plain (read : getScriptOp script = .op opcode [] rest)
    (limited : ctx.isLimited = true) (plain : opcode.isPlain = true)
    (active : s.vfExec.allTrue = true) (room : s.nOpCount < 201) :
    evalLoop ctx (fuel + 1) script s =
      execOp ctx opcode rest { s with nOpCount := s.nOpCount + 1 } >>= fun s =>
        endStep s >>= evalLoop ctx fuel rest := by
  simp only [Opcode.isPlain, Bool.and_eq_true, Bool.not_eq_true', bne_iff_ne] at plain
  obtain ⟨⟨counted, enabled⟩, separator⟩ := plain
  have notPush : opcode.isPush = false := by
    cases opcode <;> first | rfl | cases counted
  have count : s.nOpCount + 1 ≤ 201 := room
  simp [evalLoop, read, evalStep, require, limited, counted, enabled, separator, count, dispatch,
    active, notPush]

theorem evalLoop_plain_ok (s' : EvalState) (read : getScriptOp script = .op opcode [] rest)
    (limited : ctx.isLimited = true) (plain : opcode.isPlain = true)
    (active : s.vfExec.allTrue = true) (room : s.nOpCount < 201)
    (executed : execOp ctx opcode rest { s with nOpCount := s.nOpCount + 1 } = .ok s')
    (fits : s'.stack.length + s'.altstack.length ≤ 1000) :
    evalLoop ctx (fuel + 1) script s =
      evalLoop ctx fuel rest { s' with opcodePos := s'.opcodePos + 1 } := by
  grind [evalLoop_plain, Outcome.ok_bind, endStep_eq_ok]

theorem evalLoop_push (read : getScriptOp script = .op opcode data rest)
    (push : opcode.isPush = true) (active : s.vfExec.allTrue = true) (short : data.length ≤ 520)
    (minimal : checkMinimalPush data opcode = true)
    (fits : s.stack.length + 1 + s.altstack.length ≤ 1000) :
    evalLoop ctx (fuel + 1) script s =
      evalLoop ctx fuel rest { s with stack := data :: s.stack, opcodePos := s.opcodePos + 1 } := by
  have uncounted : opcode.isUncounted = true ∧ opcode.isDisabled = false ∧
      opcode ≠ .codeSeparator := by
    cases opcode with
    | push => exact ⟨rfl, rfl, nofun⟩
    | pushdata1 => exact ⟨rfl, rfl, nofun⟩
    | pushdata2 => exact ⟨rfl, rfl, nofun⟩
    | pushdata4 => exact ⟨rfl, rfl, nofun⟩
    | _ => cases push
  simp [evalLoop, read, evalStep, require, uncounted, dispatch, active, push, short, minimal,
    endStep_eq_ok (s := { s with stack := data :: s.stack }) (by simpa using fits)]

end

end QuantBTC.Script
