/-
# Script.Script -- scripts as bytes and their operations

The opcodes, `GetScriptOp` and the pushes of `CScript::operator<<`.  A script is its
byte sequence and an iterator into it the bytes that are left, so an operation that
fails to parse still says how far the iterator moved: the signature hash of a
malformed script depends on it.
-/
import QuantBTC.Primitives.Bytes

namespace QuantBTC.Script

set_option autoImplicit false

open Primitives

/-! ## Opcodes -/

inductive Opcode where
  | push (n : UInt8)
  | pushdata1 | pushdata2 | pushdata4 | negate1 | reserved
  | small (n : UInt8)
  -- control
  | nop | ver | opIf | opNotIf | verIf | verNotIf | opElse | endIf | verify | opReturn
  -- stack
  | toAltStack | fromAltStack | drop2 | dup2 | dup3 | over2 | rot2 | swap2 | ifDup | depth
  | drop | dup | nip | over | pick | roll | rot | swap | tuck
  -- splice
  | cat | substr | left | right | size
  -- bit logic
  | invert | and | or | xor | equal | equalVerify | reserved1 | reserved2
  -- numeric
  | add1 | sub1 | mul2 | div2 | negate | abs | not | notEqual0 | add | sub | mul | div | mod
  | lshift | rshift | boolAnd | boolOr | numEqual | numEqualVerify | numNotEqual | lessThan
  | greaterThan | lessThanOrEqual | greaterThanOrEqual | min | max | within
  -- crypto
  | ripemd160 | sha1 | sha256 | hash160 | hash256 | codeSeparator | checkSig | checkSigVerify
  | checkMultiSig | checkMultiSigVerify
  -- expansion
  | nop1 | checkLockTimeVerify | checkSequenceVerify | nop4 | nop5 | nop6 | nop7 | nop8 | nop9
  | nop10 | checkSigAdd
  | unknown (byte : UInt8)
deriving DecidableEq, Repr

def Opcode.ofByte (byte : UInt8) : Opcode :=
  if byte < 0x4c then .push byte
  else if 0x51 ≤ byte ∧ byte ≤ 0x60 then .small (byte - 0x50)
  else
    match byte with
    | 0x4c => .pushdata1 | 0x4d => .pushdata2 | 0x4e => .pushdata4 | 0x4f => .negate1
    | 0x50 => .reserved
    | 0x61 => .nop | 0x62 => .ver | 0x63 => .opIf | 0x64 => .opNotIf | 0x65 => .verIf
    | 0x66 => .verNotIf | 0x67 => .opElse | 0x68 => .endIf | 0x69 => .verify | 0x6a => .opReturn
    | 0x6b => .toAltStack | 0x6c => .fromAltStack | 0x6d => .drop2 | 0x6e => .dup2
    | 0x6f => .dup3 | 0x70 => .over2 | 0x71 => .rot2 | 0x72 => .swap2 | 0x73 => .ifDup
    | 0x74 => .depth | 0x75 => .drop | 0x76 => .dup | 0x77 => .nip | 0x78 => .over
    | 0x79 => .pick | 0x7a => .roll | 0x7b => .rot | 0x7c => .swap | 0x7d => .tuck
    | 0x7e => .cat | 0x7f => .substr | 0x80 => .left | 0x81 => .right | 0x82 => .size
    | 0x83 => .invert | 0x84 => .and | 0x85 => .or | 0x86 => .xor | 0x87 => .equal
    | 0x88 => .equalVerify | 0x89 => .reserved1 | 0x8a => .reserved2
    | 0x8b => .add1 | 0x8c => .sub1 | 0x8d => .mul2 | 0x8e => .div2 | 0x8f => .negate
    | 0x90 => .abs | 0x91 => .not | 0x92 => .notEqual0 | 0x93 => .add | 0x94 => .sub
    | 0x95 => .mul | 0x96 => .div | 0x97 => .mod | 0x98 => .lshift | 0x99 => .rshift
    | 0x9a => .boolAnd | 0x9b => .boolOr | 0x9c => .numEqual | 0x9d => .numEqualVerify
    | 0x9e => .numNotEqual | 0x9f => .lessThan | 0xa0 => .greaterThan
    | 0xa1 => .lessThanOrEqual | 0xa2 => .greaterThanOrEqual | 0xa3 => .min | 0xa4 => .max
    | 0xa5 => .within
    | 0xa6 => .ripemd160 | 0xa7 => .sha1 | 0xa8 => .sha256 | 0xa9 => .hash160
    | 0xaa => .hash256 | 0xab => .codeSeparator | 0xac => .checkSig | 0xad => .checkSigVerify
    | 0xae => .checkMultiSig | 0xaf => .checkMultiSigVerify
    | 0xb0 => .nop1 | 0xb1 => .checkLockTimeVerify | 0xb2 => .checkSequenceVerify
    | 0xb3 => .nop4 | 0xb4 => .nop5 | 0xb5 => .nop6 | 0xb6 => .nop7 | 0xb7 => .nop8
    | 0xb8 => .nop9 | 0xb9 => .nop10 | 0xba => .checkSigAdd
    | byte => .unknown byte

/-! ## Reading operations -/

inductive GetOpResult where
  | atEnd
  | truncated (rest : Bytes)
  | op (opcode : Opcode) (data rest : Bytes)
deriving DecidableEq, Repr

def takeData (opcode : Opcode) (size : Nat) (rest : Bytes) : GetOpResult :=
  if rest.length < size then .truncated rest else .op opcode (rest.take size) (rest.drop size)

def takeSized (opcode : Opcode) (width : Nat) (rest : Bytes) : GetOpResult :=
  if rest.length < width then .truncated rest
  else takeData opcode (ofLeBytes (rest.take width)) (rest.drop width)

def getScriptOp : Bytes → GetOpResult
  | [] => .atEnd
  | byte :: rest =>
    match Opcode.ofByte byte with
    | .push n => takeData (.push n) n.toNat rest
    | .pushdata1 => takeSized .pushdata1 1 rest
    | .pushdata2 => takeSized .pushdata2 2 rest
    | .pushdata4 => takeSized .pushdata4 4 rest
    | opcode => .op opcode [] rest

theorem length_takeData {opcode opcode' : Opcode} {size : Nat} {bytes data rest : Bytes}
    (taken : takeData opcode size bytes = .op opcode' data rest) : rest.length ≤ bytes.length := by
  unfold takeData at taken
  split at taken
  · cases taken
  · cases taken
    simp

theorem length_takeSized {opcode opcode' : Opcode} {width : Nat} {bytes data rest : Bytes}
    (taken : takeSized opcode width bytes = .op opcode' data rest) :
    rest.length ≤ bytes.length := by
  unfold takeSized at taken
  split at taken
  · cases taken
  · have dropped := length_takeData taken
    simp only [List.length_drop] at dropped
    omega

theorem length_getScriptOp {script data rest : Bytes} {opcode : Opcode}
    (read : getScriptOp script = .op opcode data rest) : rest.length < script.length := by
  cases script with
  | nil => cases read
  | cons byte bytes =>
    rw [List.length_cons, Nat.lt_succ_iff]
    have unfolded : getScriptOp (byte :: bytes) =
        match Opcode.ofByte byte with
        | .push n => takeData (.push n) n.toNat bytes
        | .pushdata1 => takeSized .pushdata1 1 bytes
        | .pushdata2 => takeSized .pushdata2 2 bytes
        | .pushdata4 => takeSized .pushdata4 4 bytes
        | opcode => .op opcode [] bytes := rfl
    rw [unfolded] at read
    cases first : Opcode.ofByte byte with
    | push n => rw [first] at read; exact length_takeData read
    | pushdata1 => rw [first] at read; exact length_takeSized read
    | pushdata2 => rw [first] at read; exact length_takeSized read
    | pushdata4 => rw [first] at read; exact length_takeSized read
    | _ =>
      rw [first] at read
      cases read
      exact le_refl _

def pushData (data : Bytes) : Bytes :=
  if data.length < 0x4c then UInt8.ofNat data.length :: data
  else if data.length ≤ 0xff then 0x4c :: UInt8.ofNat data.length :: data
  else if data.length ≤ 0xffff then 0x4d :: leBytes 2 data.length ++ data
  else 0x4e :: leBytes 4 data.length ++ data

end QuantBTC.Script
