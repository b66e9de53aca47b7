/-
# Script.Checker -- checking signatures against a transaction

`GenericTransactionSignatureChecker`: the signature checks of one input of one
transaction.  All of them compute the signature hash and hand it to a scheme
(`verifySighash`); the schemes themselves are parameters.  A result `none` is an
`assert` that fails.
-/
import QuantBTC.Script.SignatureHash

namespace QuantBTC.Script

set_option autoImplicit false

open Primitives

/-! ## Keys and schemes -/

def pubKeyLen (chHeader : UInt8) : Nat :=
  if chHeader = 2 ∨ chHeader = 3 then 33
  else if chHeader = 4 ∨ chHeader = 6 ∨ chHeader = 7 then 65
  else 0

def pubKeyValidSize : Bytes → Bool
  | [] => false
  | header :: rest => pubKeyLen header == (header :: rest).length

structure CPubKey where
  bytes : Bytes
  valid : pubKeyValidSize bytes = true
deriving DecidableEq, Repr

def CPubKey.ofBytes (bytes : Bytes) : Option CPubKey :=
  if valid : pubKeyValidSize bytes = true then some ⟨bytes, valid⟩ else none

structure Schemes where
  ecdsaVerify : CPubKey → Uint256 → Bytes → Bool
  dilithiumVerify : Bytes → Bytes → Bytes → Bool
  falconVerify : Bytes → Bytes → Bytes → Bool
  falcon1024Verify : Bytes → Bytes → Bytes → Bool
  sphincsVerify : Bytes → Bytes → Bytes → Bool

inductive PqcScheme where
  | dilithium
  | falcon
  | falcon1024
  | sphincs
deriving DecidableEq, Repr

def PqcScheme.signatureSize : PqcScheme → Nat
  | .dilithium => 2420
  | .falcon => 666
  | .falcon1024 => 1280
  | .sphincs => 17088

def PqcScheme.publicKeySize : PqcScheme → Nat
  | .dilithium => 1312
  | .falcon => 897
  | .falcon1024 => 1793
  | .sphincs => 32

def PqcScheme.sizesMatch (scheme : PqcScheme) (sig pubkey : Bytes) : Bool :=
  sig.length == scheme.signatureSize && pubkey.length == scheme.publicKeySize

/-! ## The checker -/

inductive MissingDataBehavior where
  | assertFail
  | fail
deriving DecidableEq, Repr

def handleMissingData : MissingDataBehavior → Option Bool
  | .assertFail => none
  | .fail => some false

structure TransactionSignatureChecker where
  txTo : CTransaction
  nIn : Nat
  amount : Int
  mMdb : MissingDataBehavior
  txdata : Option PrecomputedTransactionData
deriving DecidableEq, Repr

namespace TransactionSignatureChecker

variable (hashes : HashFunctions) (schemes : Schemes) (checker : TransactionSignatureChecker)

def sighash (scriptCode : Bytes) (sigversion : SigVersion) (nHashType : Int32) : Option Uint256 :=
  if sigversion = .witnessV0 ∧ checker.amount < 0 then none
  else signatureHash hashes scriptCode checker.txTo checker.nIn nHashType checker.amount sigversion
    checker.txdata

def verifySighash (scriptCode : Bytes) (sigversion : SigVersion) (nHashType : Int32)
    (verify : Uint256 → Bool) : Option Bool :=
  if sigversion = .witnessV0 ∧ checker.amount < 0 then handleMissingData checker.mMdb
  else (signatureHash hashes scriptCode checker.txTo checker.nIn nHashType checker.amount
    sigversion checker.txdata).map verify

def hashTypeOf (byte : UInt8) : Int32 := Int32.ofNat byte.toNat

def checkECDSASignature (vchSigIn vchPubKey scriptCode : Bytes) (sigversion : SigVersion) :
    Option Bool :=
  match CPubKey.ofBytes vchPubKey, vchSigIn.getLast? with
  | some pubkey, some hashType =>
    checker.verifySighash hashes scriptCode sigversion (hashTypeOf hashType)
      fun sighash => schemes.ecdsaVerify pubkey sighash vchSigIn.dropLast
  | _, _ => some false

def checkWithEcdsaHashType (verify : Bytes → Bytes → Bytes → Bool)
    (pqcSig pqcPubkey ecdsaSigIn scriptCode : Bytes) (sigversion : SigVersion) : Option Bool :=
  match ecdsaSigIn.getLast? with
  | none => some false
  | some hashType =>
    checker.verifySighash hashes scriptCode sigversion (hashTypeOf hashType)
      fun sighash => verify (uint256Bytes sighash) pqcSig pqcPubkey

def checkDilithiumSignature :=
  checker.checkWithEcdsaHashType hashes schemes.dilithiumVerify

def checkFalconSignature :=
  checker.checkWithEcdsaHashType hashes schemes.falconVerify

def checkSPHINCSSignature :=
  checker.checkWithEcdsaHashType hashes schemes.sphincsVerify

def verifyPqc (pqcSig pqcPubKey msg : Bytes) : Bool :=
  if PqcScheme.falcon.sizesMatch pqcSig pqcPubKey then schemes.falconVerify msg pqcSig pqcPubKey
  else if PqcScheme.falcon1024.sizesMatch pqcSig pqcPubKey then
    schemes.falcon1024Verify msg pqcSig pqcPubKey
  else if PqcScheme.dilithium.sizesMatch pqcSig pqcPubKey then
    schemes.dilithiumVerify msg pqcSig pqcPubKey
  else false

def checkPQCSignature (pqcSig pqcPubKey scriptCode : Bytes) (sigversion : SigVersion)
    (nHashType : Int32) : Option Bool :=
  checker.verifySighash hashes scriptCode sigversion nHashType
    fun sighash => verifyPqc schemes pqcSig pqcPubKey (uint256Bytes sighash)

theorem verifySighash_assertFail (mdb : checker.mMdb = .assertFail) (scriptCode : Bytes)
    (sigversion : SigVersion) (nHashType : Int32) (verify : Uint256 → Bool) :
    checker.verifySighash hashes scriptCode sigversion nHashType verify
      = (checker.sighash hashes scriptCode sigversion nHashType).map verify := by
  unfold verifySighash sighash
  split
  · rw [mdb]
    rfl
  · rfl

end TransactionSignatureChecker

end QuantBTC.Script
