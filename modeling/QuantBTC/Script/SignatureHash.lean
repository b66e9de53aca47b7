/-
# Script.SignatureHash -- the message a signature covers

`SignatureHash`: the BIP-143 digest for witness v0 and the original one for every other
script version.  `none` is a failed `assert`, an input index out of range.
-/
import QuantBTC.Primitives.Transaction
import QuantBTC.Script.Script

namespace QuantBTC.Script

set_option autoImplicit false

open Primitives

inductive SigVersion where
  | base
  | witnessV0
  | taproot
  | tapscript
deriving DecidableEq, Repr

def SigVersion.toByte : SigVersion → UInt8
  | .base => 0
  | .witnessV0 => 1
  | .taproot => 2
  | .tapscript => 3

def anyoneCanPay (nHashType : Int32) : Bool := nHashType &&& 0x80 != 0

def hashSingle (nHashType : Int32) : Bool := nHashType &&& 0x1f == 3

def hashNone (nHashType : Int32) : Bool := nHashType &&& 0x1f == 2

def hashTypeBytes (nHashType : Int32) : Bytes := uint32Bytes nHashType.toUInt32

/-! ## The original digest -/

def parseOps : Nat → Bytes → List (Opcode × Bytes) × Bytes
  | 0, _ => ([], [])
  | fuel + 1, script =>
    match getScriptOp script with
    | .atEnd => ([], [])
    | .truncated rest => ([], script.take (script.length - rest.length))
    | .op opcode _ rest =>
      let (ops, partialOp) := parseOps fuel rest
      ((opcode, script.take (script.length - rest.length)) :: ops, partialOp)

def serializeScriptCode (scriptCode : Bytes) : Bytes :=
  let (ops, partialOp) := parseOps scriptCode.length scriptCode
  let kept := ops.filter fun op => op.1 ≠ .codeSeparator
  writeCompactSize (scriptCode.length - (ops.length - kept.length)) ++
    kept.flatMap (·.2) ++ partialOp

section

variable (txTo : CTransaction) (scriptCode : Bytes) (nIn : Nat) (nHashType : Int32)

def serializeInput (nInput : Nat) : Bytes :=
  let nInput := if anyoneCanPay nHashType then nIn else nInput
  match txTo.vin[nInput]? with
  | none => []
  | some txin =>
    txin.prevout.serialize ++
      (if nInput ≠ nIn then vectorBytes [] else serializeScriptCode scriptCode) ++
      (if nInput ≠ nIn ∧ (hashSingle nHashType ∨ hashNone nHashType) then uint32Bytes 0
        else uint32Bytes txin.nSequence)

def serializeOutput (nOutput : Nat) : Bytes :=
  if hashSingle nHashType ∧ nOutput ≠ nIn then CTxOut.serialize {}
  else (txTo.vout.getD nOutput {}).serialize

def serializeForSigning : Bytes :=
  let nInputs := if anyoneCanPay nHashType then 1 else txTo.vin.length
  let nOutputs := if hashNone nHashType then 0
    else if hashSingle nHashType then nIn + 1 else txTo.vout.length
  uint32Bytes txTo.version ++
    writeCompactSize nInputs ++
    (List.range nInputs).flatMap (serializeInput txTo scriptCode nIn nHashType) ++
    writeCompactSize nOutputs ++
    (List.range nOutputs).flatMap (serializeOutput txTo nIn nHashType) ++
    uint32Bytes txTo.nLockTime

end

/-! ## The BIP-143 digest -/

structure PrecomputedTransactionData where
  hashPrevouts : Uint256
  hashSequence : Uint256
  hashOutputs : Uint256
deriving DecidableEq, Repr

variable (hashes : HashFunctions)

def PrecomputedTransactionData.init (txTo : CTransaction) : PrecomputedTransactionData where
  hashPrevouts := hashes.hash256 (txTo.vin.flatMap (·.prevout.serialize))
  hashSequence := hashes.hash256 (txTo.vin.flatMap (uint32Bytes ·.nSequence))
  hashOutputs := hashes.hash256 (txTo.vout.flatMap (·.serialize))

def outputsHash (txTo : CTransaction) (nIn : Nat) (nHashType : Int32)
    (data : PrecomputedTransactionData) : Uint256 :=
  if !hashSingle nHashType ∧ !hashNone nHashType then data.hashOutputs
  else
    match hashSingle nHashType, txTo.vout[nIn]? with
    | true, some txout => hashes.hash256 txout.serialize
    | _, _ => 0

def witnessV0Message (scriptCode : Bytes) (txTo : CTransaction) (nIn : Nat) (txin : CTxIn)
    (nHashType : Int32) (amount : Int) (data : PrecomputedTransactionData) : Bytes :=
  uint32Bytes txTo.version ++
    uint256Bytes (if anyoneCanPay nHashType then 0 else data.hashPrevouts) ++
    uint256Bytes (if anyoneCanPay nHashType ∨ hashSingle nHashType ∨ hashNone nHashType then 0
      else data.hashSequence) ++
    txin.prevout.serialize ++ vectorBytes scriptCode ++ int64Bytes amount ++
    uint32Bytes txin.nSequence ++
    uint256Bytes (outputsHash hashes txTo nIn nHashType data) ++
    uint32Bytes txTo.nLockTime ++ hashTypeBytes nHashType

def signatureHash (scriptCode : Bytes) (txTo : CTransaction) (nIn : Nat) (nHashType : Int32)
    (amount : Int) (sigversion : SigVersion) (cache : Option PrecomputedTransactionData) :
    Option Uint256 :=
  match txTo.vin[nIn]? with
  | none => none
  | some txin =>
    if sigversion = .witnessV0 then
      let data := cache.getD (.init hashes txTo)
      some (hashes.hash256 (witnessV0Message hashes scriptCode txTo nIn txin nHashType amount data))
    else if hashSingle nHashType ∧ nIn ≥ txTo.vout.length then
      -- `uint256::ONE`, whose first byte is 1
      some (Fin.ofNat _ (2 ^ 248))
    else
      some (hashes.hash256
        (serializeForSigning txTo scriptCode nIn nHashType ++ hashTypeBytes nHashType))

end QuantBTC.Script
