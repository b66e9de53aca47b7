/-
# Script.Solver -- the standard forms of an output

`Solver` recognises the form of a script and takes the hashes, keys and numbers out of it.
The two forms that a P2WPKH spend goes through are read back from what makes them:
-/
import QuantBTC.Script.Witness

namespace QuantBTC.Script

set_option autoImplicit false

open Primitives

inductive TxoutType where
  | nonstandard
  | anchor
  | pubkey
  | pubkeyHash
  | scriptHash
  | multisig
  | nullData
  | witnessV0ScriptHash
  | witnessV0KeyHash
  | witnessV1Taproot
  | witnessUnknown
deriving DecidableEq, Repr

/-! ## Forms -/

def matchPushedPubkey (size : Nat) (script : Bytes) : Option Bytes :=
  if script.length = size + 2 ∧ script.getD 0 0 = UInt8.ofNat size ∧ script.getLastD 0 = 0xac then
    some ((script.drop 1).take size)
  else none

def matchPayToPubkey (script : Bytes) : Option Bytes :=
  (matchPushedPubkey 65 script <|> matchPushedPubkey 33 script).filter pubKeyValidSize

def matchPayToPubkeyHash (script : Bytes) : Option Bytes :=
  if script.length = 25 ∧ script.getD 0 0 = 0x76 ∧ script.getD 1 0 = 0xa9 ∧
      script.getD 2 0 = 20 ∧ script.getD 23 0 = 0x88 ∧ script.getD 24 0 = 0xac then
    some ((script.drop 3).take 20)
  else none

def pushedNumber (opcode : Opcode) (data : Bytes) : Option Int :=
  if checkMinimalPush data opcode then (scriptNum {.minimalData} 4 data).toOption else none

def getScriptNumber (opcode : Opcode) (data : Bytes) (min max : Int) : Option Int :=
  let count : Option Int :=
    match opcode with
    | .small n => some n.toNat
    -- `OP_0` is no push here
    | .push 0 => none
    | .push _ | .pushdata1 | .pushdata2 | .pushdata4 => pushedNumber opcode data
    | _ => none
  count.filter fun count => min ≤ count && count ≤ max

def multisigKeys : Nat → Bytes → List Bytes × GetOpResult
  | 0, script => ([], getScriptOp script)
  | fuel + 1, script =>
    match getScriptOp script with
    | .op opcode data rest =>
      if pubKeyValidSize data then
        let (keys, last) := multisigKeys fuel rest
        (data :: keys, last)
      else ([], .op opcode data rest)
    | result => ([], result)

def matchMultisig (script : Bytes) : Option (Int × List Bytes) :=
  if script.getLast? = some 0xae then
    match getScriptOp script with
    | .op opcode data rest => do
        let requiredSigs ← getScriptNumber opcode data 1 20
        match multisigKeys rest.length rest with
        | (pubkeys, .op opcode data rest) =>
          let numKeys ← getScriptNumber opcode data requiredSigs 20
          if pubkeys.length = numKeys ∧ rest.length = 1 then some (requiredSigs, pubkeys) else none
        | _ => none
    | _ => none
  else none

def solveBare (script : Bytes) : TxoutType × List Bytes :=
  if script.head? = some 0x6a ∧ isPushOnly script.tail then (.nullData, [])
  else
    match matchPayToPubkey script with
    | some pubkey => (.pubkey, [pubkey])
    | none =>
      match matchPayToPubkeyHash script with
      | some hash => (.pubkeyHash, [hash])
      | none =>
        match matchMultisig script with
        | some (requiredSigs, keys) =>
          (.multisig, [UInt8.ofNat requiredSigs.toNat] :: keys ++ [[UInt8.ofNat keys.length]])
        | none => (.nonstandard, [])

def solveWitness (version : Nat) (program : Bytes) : TxoutType × List Bytes :=
  if version = 0 ∧ program.length = 20 then (.witnessV0KeyHash, [program])
  else if version = 0 ∧ program.length = 32 then (.witnessV0ScriptHash, [program])
  else if version = 1 ∧ program.length = 32 then (.witnessV1Taproot, [program])
  -- `IsPayToAnchor`
  else if version = 1 ∧ program = [0x4e, 0x73] then (.anchor, [])
  else if version ≠ 0 then (.witnessUnknown, [[UInt8.ofNat version], program])
  else (.nonstandard, [])

def solver (script : Bytes) : TxoutType × List Bytes :=
  if isPayToScriptHash script then (.scriptHash, [(script.drop 2).take 20])
  else
    match witnessProgram script with
    | some (version, program) => solveWitness version program
    | none => solveBare script

example : solver (0x51 :: pushData (0x02 :: List.replicate 32 7) ++ [0x51, 0xae])
    = (.multisig, [[1], 0x02 :: List.replicate 32 7, [1]]) := by decide +kernel

/-! ## P2WPKH -/

variable {program : Bytes}

theorem payToKeyHash_eq (keyHash : program.length = 20) :
    payToKeyHash program = 0x00 :: 0x14 :: program := by
  simp [payToKeyHash, pushData, keyHash]

theorem witnessProgram_payToKeyHash (keyHash : program.length = 20) :
    witnessProgram (payToKeyHash program) = some (0, program) := by
  rw [payToKeyHash_eq keyHash]
  simp [witnessProgram, keyHash]

theorem not_isPayToScriptHash_payToKeyHash (keyHash : program.length = 20) :
    isPayToScriptHash (payToKeyHash program) = false := by
  rw [payToKeyHash_eq keyHash]
  simp [isPayToScriptHash, keyHash]

theorem solver_payToKeyHash (keyHash : program.length = 20) :
    solver (payToKeyHash program) = (.witnessV0KeyHash, [program]) := by
  rw [solver, not_isPayToScriptHash_payToKeyHash keyHash, if_neg Bool.false_ne_true,
    witnessProgram_payToKeyHash keyHash]
  simp [solveWitness, keyHash]

theorem solver_keyHashScript (keyHash : program.length = 20) :
    solver (keyHashScript program) = (.pubkeyHash, [program]) := by
  have script : keyHashScript program = 0x76 :: 0xa9 :: 0x14 :: (program ++ [0x88, 0xac]) := by
    simp [keyHashScript, pushData, keyHash]
  have matched : matchPayToPubkeyHash (keyHashScript program) = some program := by
    rw [matchPayToPubkeyHash, if_pos]
    · rw [script]
      simp [List.take_left' keyHash]
    · rw [script]
      simp [keyHash, List.getD_eq_getElem?_getD]
  have noProgram : witnessProgram (keyHashScript program) = none := by
    rw [script]
    simp [witnessProgram, keyHash]
  have size : (keyHashScript program).length = 25 := by simp [script, keyHash]
  have noPubkey : matchPayToPubkey (keyHashScript program) = none := by
    simp [matchPayToPubkey, matchPushedPubkey, size]
  have noScriptHash : isPayToScriptHash (keyHashScript program) = false := by
    simp [isPayToScriptHash, size]
  have noReturn : (keyHashScript program).head? ≠ some 0x6a := by simp [script]
  rw [solver, noScriptHash, if_neg Bool.false_ne_true, noProgram]
  grind [solveBare]

end QuantBTC.Script
