/-
# Script.Encoding -- flags, errors and the encodings the interpreter checks

The verification flags, the script errors, the canonical encodings of signatures and
public keys, and `CScriptNum`.  A function of the source that returns `false` and sets
`serror` is an `Except` here; a failed `assert` is kept apart from every script error.
-/
import QuantBTC.Script.SignatureHash

namespace QuantBTC.Script

set_option autoImplicit false

open Primitives

/-! ## Flags and failures -/

inductive ScriptFlag where
  | p2sh | strictEnc | derSig | lowS | nullDummy | sigPushOnly | minimalData
  | discourageUpgradableNops | cleanStack | checkLockTimeVerify | checkSequenceVerify | witness
  | discourageUpgradableWitnessProgram | minimalIf | nullFail | witnessPubkeyType
  | constScriptCode | taproot | discourageUpgradableTaprootVersion | discourageOpSuccess
  | discourageUpgradablePubkeyType | pqc | hybridSig
deriving DecidableEq, Repr

abbrev ScriptFlags := Finset ScriptFlag

inductive ScriptError where
  | unknownError | evalFalse | opReturn
  | scriptSize | pushSize | opCount | stackSize | sigCount | pubkeyCount
  | verify | equalVerify | checkMultiSigVerify | checkSigVerify | numEqualVerify
  | badOpcode | disabledOpcode | invalidStackOperation | invalidAltstackOperation
  | unbalancedConditional
  | negativeLockTime | unsatisfiedLockTime
  | sigHashType | sigDer | minimalData | sigPushOnly | sigHighS | sigNullDummy | pubkeyType
  | cleanStack | minimalIf | sigNullFail
  | discourageUpgradableNops | discourageUpgradableWitnessProgram
  | discourageUpgradableTaprootVersion | discourageOpSuccess | discourageUpgradablePubkeyType
  | witnessProgramWrongLength | witnessProgramWitnessEmpty | witnessProgramMismatch
  | witnessMalleated | witnessMalleatedP2sh | witnessUnexpected | witnessPubkeyType
  | schnorrSigSize | schnorrSigHashType | schnorrSig | taprootWrongControlSize
  | tapscriptValidationWeight | tapscriptCheckMultiSig | tapscriptMinimalIf
  | pqcSigSize | pqcSig
  | opCodeSeparator | sigFindAndDelete
deriving DecidableEq, Repr

inductive Failure where
  | script (error : ScriptError)
  | abort
deriving DecidableEq, Repr

abbrev Outcome := Except Failure

def setError {α : Type} (error : ScriptError) : Outcome α := .error (.script error)

def require (holds : Bool) (error : ScriptError) : Outcome Unit :=
  if holds then .ok () else setError error

def ask : Option Bool → Outcome Bool
  | none => .error .abort
  | some verdict => .ok verdict

@[simp] theorem require_eq_ok_iff {holds : Bool} {error : ScriptError} {value : Unit} :
    require holds error = .ok value ↔ holds = true := by
  cases holds <;> simp [require, setError]

@[simp] theorem ask_eq_ok_iff {answer : Option Bool} {verdict : Bool} :
    ask answer = .ok verdict ↔ answer = some verdict := by
  cases answer <;> simp [ask]

@[simp] theorem Outcome.ok_bind {α β : Type} (value : α) (rest : α → Outcome β) :
    ((.ok value : Outcome α) >>= rest) = rest value := rfl

theorem Outcome.bind_eq_ok_iff {α β : Type} {first : Outcome α} {rest : α → Outcome β}
    {result : β} :
    (first >>= rest) = .ok result ↔ ∃ value, first = .ok value ∧ rest value = .ok result := by
  cases first <;> simp [bind, Except.bind]

/-! ## Signatures and public keys -/

def castToBool : Bytes → Bool
  | [] => false
  | [last] => last != 0 && last != 0x80
  | byte :: rest => byte != 0 || castToBool rest

def isCompressedOrUncompressedPubKey : Bytes → Bool
  | [] => false
  | header :: rest =>
    let size := rest.length + 1
    if header = 0x04 then size == 65
    else if header = 0x02 ∨ header = 0x03 then size == 33
    else false

def isCompressedPubKey (vchPubKey : Bytes) : Bool :=
  vchPubKey.length == 33 && (vchPubKey.head? == some 0x02 || vchPubKey.head? == some 0x03)

def highBit (byte : UInt8) : Bool := 0x80 ≤ byte

def isValidSignatureEncoding (sig : Bytes) : Bool :=
  let byte (i : Nat) : UInt8 := sig.getD i 0
  let lenR := (byte 3).toNat
  let lenS := (byte (5 + lenR)).toNat
  9 ≤ sig.length && sig.length ≤ 73 && byte 0 == 0x30 && (byte 1).toNat == sig.length - 3 &&
    5 + lenR < sig.length && lenR + lenS + 7 == sig.length &&
    byte 2 == 0x02 && lenR != 0 && !highBit (byte 4) &&
    !(1 < lenR && byte 4 == 0x00 && !highBit (byte 5)) &&
    byte (lenR + 4) == 0x02 && lenS != 0 && !highBit (byte (lenR + 6)) &&
    !(1 < lenS && byte (lenR + 6) == 0x00 && !highBit (byte (lenR + 7)))

def isDefinedHashtypeSignature (vchSig : Bytes) : Bool :=
  match vchSig.getLast? with
  | none => false
  | some hashType =>
    let nHashType := hashType &&& 0x7f
    1 ≤ nHashType && nHashType ≤ 3

structure Crypto where
  hashes : HashFunctions
  /-- `CPubKey::CheckLowS` -/
  checkLowS : Bytes → Bool
  /-- `XOnlyPubKey::CheckTapTweak` of the output key: internal key, Merkle root, parity -/
  checkTapTweak : Bytes → Bytes → Uint256 → Bool → Bool

def checkSignatureEncoding (crypto : Crypto) (flags : ScriptFlags) (vchSig : Bytes) :
    Outcome Unit :=
  if vchSig = [] then .ok ()
  else if (.derSig ∈ flags ∨ .lowS ∈ flags ∨ .strictEnc ∈ flags) ∧
      isValidSignatureEncoding vchSig = false then
    setError .sigDer
  else if .lowS ∈ flags ∧ crypto.checkLowS vchSig.dropLast = false then setError .sigHighS
  else if .strictEnc ∈ flags ∧ isDefinedHashtypeSignature vchSig = false then
    setError .sigHashType
  else .ok ()

def checkPubKeyEncoding (flags : ScriptFlags) (sigversion : SigVersion) (vchPubKey : Bytes) :
    Outcome Unit :=
  if .strictEnc ∈ flags ∧ isCompressedOrUncompressedPubKey vchPubKey = false then
    setError .pubkeyType
  else if .witnessPubkeyType ∈ flags ∧ sigversion = .witnessV0 ∧
      isCompressedPubKey vchPubKey = false then
    setError .witnessPubkeyType
  else .ok ()

/-! ## Numbers -/

def absBytes : Nat → Nat → Bytes
  | 0, _ => []
  | fuel + 1, n => if n = 0 then [] else UInt8.ofNat n :: absBytes fuel (n / 256)

def serializeNum (value : Int) : Bytes :=
  let result := absBytes 8 value.natAbs
  match result.getLast? with
  | none => []
  | some last =>
    if highBit last then result ++ [if value < 0 then 0x80 else 0]
    else if value < 0 then result.dropLast ++ [last ||| 0x80]
    else result

def setVch (vch : Bytes) : Int :=
  match vch.getLast? with
  | none => 0
  | some last =>
    if highBit last then -((ofLeBytes vch : Int) - 0x80 * 256 ^ (vch.length - 1))
    else ofLeBytes vch

def isMinimalNum (vch : Bytes) : Bool :=
  match vch.getLast? with
  | none => true
  | some last => last &&& 0x7f != 0 || (vch.dropLast.getLast?.map highBit).getD false

def scriptNum (flags : ScriptFlags) (nMaxNumSize : Nat) (vch : Bytes) : Outcome Int :=
  if nMaxNumSize < vch.length then setError .unknownError
  else if .minimalData ∈ flags ∧ isMinimalNum vch = false then setError .unknownError
  else .ok (setVch vch)

example : (serializeNum (-255), setVch [0xff, 0x80]) = ([0xff, 0x80], -255) := by decide

/-! ## Scripts -/

def checkMinimalPush (data : Bytes) (opcode : Opcode) : Bool :=
  if data.length = 0 then opcode == .push 0
  else if data.length = 1 ∧ (1 ≤ data.getD 0 0 ∧ data.getD 0 0 ≤ 16) then false
  else if data.length = 1 ∧ data.getD 0 0 = 0x81 then false
  else if data.length ≤ 75 then opcode == .push (UInt8.ofNat data.length)
  else if data.length ≤ 255 then opcode == .pushdata1
  else if data.length ≤ 65535 then opcode == .pushdata2
  else true

def skipCopies (b : Bytes) : Nat → Bytes → Bytes × Nat
  | 0, script => (script, 0)
  | fuel + 1, script =>
    if b.isPrefixOf script then
      let (rest, found) := skipCopies b fuel (script.drop b.length)
      (rest, found + 1)
    else (script, 0)

def findAndDeleteFrom (b : Bytes) : Nat → Bytes → Bytes × Nat
  | 0, script => (script, 0)
  | fuel + 1, script =>
    let (kept, found) := skipCopies b script.length script
    match getScriptOp kept with
    | .op _ _ rest =>
      let (tail, more) := findAndDeleteFrom b fuel rest
      (kept.take (kept.length - rest.length) ++ tail, found + more)
    | _ => (kept, found)

@[inherit_doc findAndDeleteFrom]
def findAndDelete (script b : Bytes) : Bytes × Nat :=
  if b = [] then (script, 0) else findAndDeleteFrom b (script.length + 1) script

end QuantBTC.Script
