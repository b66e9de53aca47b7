/-
# Pqc.Manager -- the signature schemes behind one interface

`pqc::PQCManager` sends a call to the class of the algorithm (`Dilithium`, `Falcon`,
`Falcon1024`, `SPHINCS`).  Each class checks the sizes of what it is given, marks the message
with the application's context string and calls a vendored library; the libraries are
parameters.
-/
import QuantBTC.Script.Checker

namespace QuantBTC.Pqc

set_option autoImplicit false

open Primitives Script

inductive PQCAlgorithm where
  | kyber
  | frodokem
  | ntru
  | sphincs
  | dilithium
  | falcon
  | falcon1024
  | sqisign
deriving DecidableEq, Repr

def PQCAlgorithm.scheme : PQCAlgorithm → Option PqcScheme
  | .dilithium => some .dilithium
  | .falcon => some .falcon
  | .falcon1024 => some .falcon1024
  | .sphincs => some .sphincs
  | .sqisign | .kyber | .frodokem | .ntru => none

def privateKeySize : PqcScheme → Nat
  | .dilithium => 2560
  | .falcon => 1281
  | .falcon1024 => 2305
  | .sphincs => 64

structure Libraries where
  /-- `crypto_sign_keypair`, of the bytes the generator of random numbers gives -/
  cryptoSignKeypair : PqcScheme → Bytes → Option (Bytes × Bytes)
  /-- `crypto_sign_signature` of context, message and private key -/
  cryptoSignSignature : PqcScheme → Bytes → Bytes → Bytes → Option Bytes
  /-- `crypto_sign_verify` of context, signature, message and public key -/
  cryptoSignVerify : PqcScheme → Bytes → Bytes → Bytes → Bytes → Bool

def contextString : PqcScheme → Bytes
  | .dilithium => "QuantBTC-MLDSA-v1".toUTF8.data.toList
  | .falcon | .falcon1024 => "QuantBTC-Falcon-v1".toUTF8.data.toList
  | .sphincs => "QuantBTC-SLH-DSA-v1".toUTF8.data.toList

def contextArgument : PqcScheme → Bytes
  | .dilithium => contextString .dilithium
  | .falcon | .falcon1024 | .sphincs => []

def markMessage (scheme : PqcScheme) (message : Bytes) : Bytes :=
  match scheme with
  | .dilithium => message
  | .falcon | .falcon1024 | .sphincs => contextString scheme ++ message

namespace Libraries

variable (lib : Libraries)

def schemeSign (scheme : PqcScheme) (message privateKey : Bytes) : Option Bytes :=
  if privateKey.length = privateKeySize scheme then do
    let signature ← lib.cryptoSignSignature scheme (contextArgument scheme)
      (markMessage scheme message) privateKey
    if scheme = .sphincs ∨ signature.length = scheme.signatureSize then some signature else none
  else none

def schemeVerify (scheme : PqcScheme) (message signature publicKey : Bytes) : Bool :=
  scheme.sizesMatch signature publicKey &&
    lib.cryptoSignVerify scheme (contextArgument scheme) signature (markMessage scheme message)
      publicKey

def generateSignatureKeyPair (algo : PQCAlgorithm) (entropy : Bytes) : Option (Bytes × Bytes) := do
  lib.cryptoSignKeypair (← algo.scheme) entropy

def sign (algo : PQCAlgorithm) (message privateKey : Bytes) : Option Bytes := do
  lib.schemeSign (← algo.scheme) message privateKey

def verify (algo : PQCAlgorithm) (message signature publicKey : Bytes) : Bool :=
  match algo.scheme with
  | none => false
  | some scheme => lib.schemeVerify scheme message signature publicKey

structure KeyPair (scheme : PqcScheme) (publicKey privateKey : Bytes) : Prop where
  pubSize : publicKey.length = scheme.publicKeySize
  privSize : privateKey.length = privateKeySize scheme
  verifies : ∀ context message signature,
    lib.cryptoSignSignature scheme context message privateKey = some signature →
      lib.cryptoSignVerify scheme context signature message publicKey = true

def Correct : Prop :=
  ∀ scheme entropy publicKey privateKey,
    lib.cryptoSignKeypair scheme entropy = some (publicKey, privateKey) →
      lib.KeyPair scheme publicKey privateKey

variable {lib} {scheme : PqcScheme} {publicKey privateKey message signature : Bytes}

theorem KeyPair.sign_verify (pair : lib.KeyPair scheme publicKey privateKey)
    (notSphincs : scheme ≠ .sphincs)
    (signed : lib.schemeSign scheme message privateKey = some signature) :
    signature.length = scheme.signatureSize ∧
      lib.schemeVerify scheme message signature publicKey = true := by
  rw [schemeSign, if_pos pair.privSize] at signed
  obtain ⟨made, isSignature, checked⟩ := Option.bind_eq_some_iff.mp signed
  split at checked
  next sized =>
    cases checked
    have size : signature.length = scheme.signatureSize := sized.resolve_left notSphincs
    refine ⟨size, ?_⟩
    simp [schemeVerify, PqcScheme.sizesMatch, size, pair.pubSize, pair.verifies _ _ _ isSignature]
  · cases checked

end Libraries

end QuantBTC.Pqc
