/-
# Pool.Coinbase -- the coinbase in parts, and its identifier

The pool writes its coinbase as two byte strings, `coinb1` and `coinb2`, with room for the
two extranonces between them, and computes the identifier by cutting the witness out of the
bytes.  `coinb1` announces the length of the input script for an extranonce of four bytes.
-/
import QuantBTC.Primitives.BlockBody
import QuantBTC.Pool.Database

namespace QuantBTC.Pool

set_option autoImplicit false

open Primitives Theory.Hex

/-! ## Packing -/

def packUInt (width : Nat) (n : Int) : Option Bytes :=
  if 0 ≤ n ∧ n < 256 ^ width then some (leBytes width n.toNat) else none

theorem packUInt_eq_some {width : Nat} {n : Int} {bytes : Bytes}
    (packed : packUInt width n = some bytes) :
    0 ≤ n ∧ bytes = leBytes width n.toNat ∧ bytes.length = width ∧ ofLeBytes bytes = n.toNat := by
  unfold packUInt at packed
  split at packed
  next fits =>
    cases packed
    have small : n.toNat < 256 ^ width := by
      have bound := fits.2
      zify
      rwa [Int.toNat_of_nonneg fits.1]
    exact ⟨fits.1, rfl, length_leBytes _ _, ofLeBytes_leBytes small⟩
  next => cases packed

/-! ## The identifier -/

def nonWitness (segwitTx : Bytes) : Bytes :=
  if 42 < segwitTx.length ∧ segwitTx.getD 4 1 = 0 ∧ segwitTx.getD 5 0 = 1 then
    segwitTx.take 4 ++ (segwitTx.take (segwitTx.length - 38)).drop 6 ++
      segwitTx.drop (segwitTx.length - 4)
  else segwitTx

def sha256d (hashes : HashFunctions) (data : Bytes) : Bytes := uint256Bytes (hashes.hash256 data)

def computeTxid (hashes : HashFunctions) (segwitTx : Bytes) : Bytes :=
  sha256d hashes (nonWitness segwitTx)

theorem nonWitness_short {bytes : Bytes} (short : bytes.length ≤ 42) : nonWitness bytes = bytes := by
  rw [nonWitness, if_neg fun long => absurd long.1 (by omega)]

theorem nonWitness_segwit {version body witness lockTime : Bytes} (four : version.length = 4)
    (witnessLength : witness.length = 34) (lockTimeLength : lockTime.length = 4) :
    nonWitness (version ++ ([0, 1] ++ (body ++ (witness ++ lockTime)))) =
      version ++ (body ++ lockTime) := by
  have length : (version ++ ([0, 1] ++ (body ++ (witness ++ lockTime)))).length =
      6 + body.length + 38 := by
    simp only [List.length_append, List.length_cons, List.length_nil]
    omega
  have marker : (version ++ ([0, 1] ++ (body ++ (witness ++ lockTime)))).getD 4 1 = 0 := by
    rw [List.getD_append_right _ _ _ _ (by omega), four]
    rfl
  have flag : (version ++ ([0, 1] ++ (body ++ (witness ++ lockTime)))).getD 5 0 = 1 := by
    rw [List.getD_append_right _ _ _ _ (by omega), four]
    rfl
  rw [nonWitness, if_pos ⟨by omega, marker, flag⟩, length, List.append_assoc]
  have head : (version ++ ([0, 1] ++ (body ++ (witness ++ lockTime)))).take 4 = version :=
    List.take_left' four
  have middle : ((version ++ ([0, 1] ++ (body ++ (witness ++ lockTime)))).take
      (6 + body.length + 38 - 38)).drop 6 = body := by
    have regroup : version ++ ([0, 1] ++ (body ++ (witness ++ lockTime))) =
        ((version ++ [0, 1]) ++ body) ++ (witness ++ lockTime) := by
      simp only [List.append_assoc]
    have six : (version ++ [0, 1]).length = 6 := by
      rw [List.length_append, four]
      rfl
    rw [regroup, List.take_left' (by rw [List.length_append, six]; omega), List.drop_left' six]
  have last : (version ++ ([0, 1] ++ (body ++ (witness ++ lockTime)))).drop
      (6 + body.length + 38 - 4) = lockTime := by
    have regroup : version ++ ([0, 1] ++ (body ++ (witness ++ lockTime))) =
        (version ++ ([0, 1] ++ (body ++ witness))) ++ lockTime := by
      simp only [List.append_assoc]
    rw [regroup]
    apply List.drop_left'
    simp only [List.length_append, List.length_cons, List.length_nil]
    omega
  rw [head, middle, last]

/-! ## The height -/

def heightNumber (height : Int) : Option Bytes :=
  if height < 0x80 then packUInt 1 height
  else if height < 0x8000 then packUInt 2 height
  else if height < 0x800000 then (packUInt 4 height).map (List.take 3)
  else packUInt 4 height

def padSign (bytes : Bytes) : Bytes :=
  if bytes.getLastD 0 &&& 0x80 ≠ 0 then bytes ++ [0] else bytes

def heightPush (height : Int) : Option Bytes := do
  let number ← heightNumber height
  let heightBytes := padSign number
  some (UInt8.ofNat heightBytes.length :: heightBytes)

theorem ofLeBytes_append_zero (bytes : Bytes) : ofLeBytes (bytes ++ [0]) = ofLeBytes bytes := by
  induction bytes with
  | nil => rfl
  | cons byte bytes ih => rw [List.cons_append, ofLeBytes, ih, ofLeBytes]

theorem take_leBytes {w v : Nat} (n : Nat) (le : v ≤ w) :
    (leBytes w n).take v = leBytes v n := by
  induction v generalizing w n with
  | zero => rfl
  | succ v ih =>
    cases w with
    | zero => omega
    | succ w => rw [leBytes, leBytes, List.take_succ_cons, ih _ (by omega)]

theorem heightNumber_eq_some {height : Int} {number : Bytes}
    (packed : heightNumber height = some number) :
    0 ≤ height ∧ ofLeBytes number = height.toNat ∧ 1 ≤ number.length ∧ number.length ≤ 4 := by
  unfold heightNumber at packed
  split_ifs at packed with one two three
  · obtain ⟨nonneg, -, width, value⟩ := packUInt_eq_some packed
    exact ⟨nonneg, value, by omega, by omega⟩
  · obtain ⟨nonneg, -, width, value⟩ := packUInt_eq_some packed
    exact ⟨nonneg, value, by omega, by omega⟩
  · obtain ⟨four, packedFour, rfl⟩ := Option.map_eq_some_iff.mp packed
    obtain ⟨nonneg, rfl, -, -⟩ := packUInt_eq_some packedFour
    grind [take_leBytes, length_leBytes, ofLeBytes_leBytes]
  · obtain ⟨nonneg, -, width, value⟩ := packUInt_eq_some packed
    exact ⟨nonneg, value, by omega, by omega⟩

theorem padSign_spec (bytes : Bytes) : ofLeBytes (padSign bytes) = ofLeBytes bytes ∧
    bytes.length ≤ (padSign bytes).length ∧ (padSign bytes).length ≤ bytes.length + 1 := by
  grind [padSign, ofLeBytes_append_zero, List.length_append, List.length_singleton]

/-- **The height reads back**, and the push is short. -/
theorem heightPush_height {height : Int} {push : Bytes} (pushed : heightPush height = some push) :
    height = ofLeBytes push.tail ∧ 2 ≤ push.length ∧ push.length ≤ 6 := by
  obtain ⟨number, packed, finished⟩ := Option.bind_eq_some_iff.mp pushed
  cases finished
  obtain ⟨nonneg, value, positive, bounded⟩ := heightNumber_eq_some packed
  grind [padSign_spec, List.tail_cons, Int.toNat_of_nonneg, List.length_cons]

/-! ## The two parts -/

def inputHead (heightPush : Bytes) (extranonceSize : Nat) : Bytes :=
  [1] ++ (List.replicate 32 0 ++ (List.replicate 4 0xff ++
    ([UInt8.ofNat (heightPush.length + extranonceSize)] ++ heightPush)))

def outputTail (coinbaseValue : Int) (scriptPubkey witnessScript : Bytes) : Bytes :=
  List.replicate 4 0xff ++ ([2] ++
    ((int64Bytes coinbaseValue ++ ([UInt8.ofNat scriptPubkey.length] ++ scriptPubkey)) ++
      (int64Bytes 0 ++ ([UInt8.ofNat witnessScript.length] ++ witnessScript))))

def coinbaseWitness : Bytes := [1, 0x20] ++ List.replicate 32 0

def coinb1Bytes (heightPush : Bytes) (extranonceSize : Nat) : Bytes :=
  leBytes 4 2 ++ ([0, 1] ++ inputHead heightPush extranonceSize)

def coinb2Bytes (coinbaseValue : Int) (scriptPubkey witnessScript : Bytes) : Bytes :=
  outputTail coinbaseValue scriptPubkey witnessScript ++ (coinbaseWitness ++ List.replicate 4 0)

def buildCoinbaseParts (height coinbaseValue : Int) (witnessScriptHex scriptPubkeyHex : Text)
    (extranonce1Size extranonce2Size : Nat) : Option (Text × Text) := do
  let push ← heightPush height
  let scriptPubkey ← fromHex scriptPubkeyHex
  let witnessScript ← fromHex witnessScriptHex
  if IsInt64 coinbaseValue ∧ scriptPubkey.length < 256 ∧ witnessScript.length < 256 then
    some (toHex (coinb1Bytes push (extranonce1Size + extranonce2Size)),
      toHex (coinb2Bytes coinbaseValue scriptPubkey witnessScript))
  else none

structure CoinbaseValues where
  heightPush : Bytes
  coinbaseValue : Int
  scriptPubkey : Bytes
  witnessScript : Bytes
deriving DecidableEq, Repr

theorem buildCoinbaseParts_eq_some {height coinbaseValue : Int}
    {witnessScriptHex scriptPubkeyHex : Text} {parts : Text × Text}
    (built : buildCoinbaseParts height coinbaseValue witnessScriptHex scriptPubkeyHex 8 4 =
      some parts) :
    ∃ values : CoinbaseValues, heightPush height = some values.heightPush ∧
      values.coinbaseValue = coinbaseValue ∧ IsInt64 coinbaseValue ∧
      fromHex scriptPubkeyHex = some values.scriptPubkey ∧
      fromHex witnessScriptHex = some values.witnessScript ∧
      parts = (toHex (coinb1Bytes values.heightPush 12),
        toHex (coinb2Bytes values.coinbaseValue values.scriptPubkey values.witnessScript)) := by
  obtain ⟨push, pushed, built⟩ := Option.bind_eq_some_iff.mp built
  obtain ⟨scriptPubkey, script, built⟩ := Option.bind_eq_some_iff.mp built
  obtain ⟨witnessScript, witness, built⟩ := Option.bind_eq_some_iff.mp built
  split at built
  next fits =>
    cases built
    exact ⟨⟨push, coinbaseValue, scriptPubkey, witnessScript⟩, pushed, rfl, fits.1, script,
      witness, rfl⟩
  next => cases built

namespace CoinbaseValues

variable (values : CoinbaseValues)

def coinbaseBytes (extranonce : Bytes) : Bytes :=
  coinb1Bytes values.heightPush 12 ++
    (extranonce ++ coinb2Bytes values.coinbaseValue values.scriptPubkey values.witnessScript)

def strippedCoinbase (extranonce : Bytes) : Bytes :=
  leBytes 4 2 ++ ((inputHead values.heightPush 12 ++ (extranonce ++
    outputTail values.coinbaseValue values.scriptPubkey values.witnessScript)) ++
    List.replicate 4 0)

def coinbaseTransaction (extranonce : Bytes) : CTransaction where
  vin := [{ prevout := { hash := 0, n := 0xffffffff },
            scriptSig := values.heightPush ++ extranonce,
            scriptWitness := [List.replicate 32 0] }]
  vout := [{ nValue := values.coinbaseValue, scriptPubKey := values.scriptPubkey },
           { nValue := 0, scriptPubKey := values.witnessScript }]

structure WellFormed : Prop where
  push_length : 2 ≤ values.heightPush.length ∧ values.heightPush.length ≤ 6
  value : IsInt64 values.coinbaseValue
  script_short : values.scriptPubkey.length < 253
  witnessScript_length : values.witnessScript.length = 38

variable {values} {extranonce : Bytes}

/-- **What `compute_txid` hashes.** -/
theorem nonWitness_coinbase (extranonce : Bytes) :
    nonWitness (values.coinbaseBytes extranonce) = values.strippedCoinbase extranonce := by
  have stripped := @nonWitness_segwit (leBytes 4 2)
    (inputHead values.heightPush 12 ++ (extranonce ++
      outputTail values.coinbaseValue values.scriptPubkey values.witnessScript))
    coinbaseWitness (List.replicate 4 0) rfl rfl rfl
  rw [strippedCoinbase, ← stripped]
  simp only [coinbaseBytes, coinb1Bytes, coinb2Bytes, List.append_assoc]

theorem vectorBytes_short {bytes : Bytes} (short : bytes.length < 253) :
    vectorBytes bytes = [UInt8.ofNat bytes.length] ++ bytes := by
  rw [vectorBytes, writeCompactSize, if_pos short]
  rfl

theorem length_strippedCoinbase (wellFormed : values.WellFormed) (extranonce : Bytes) :
    (values.strippedCoinbase extranonce).length =
      107 + values.heightPush.length + values.scriptPubkey.length + extranonce.length := by
  have script := wellFormed.witnessScript_length
  simp only [strippedCoinbase, inputHead, outputTail, List.length_append, List.length_cons,
    List.length_nil, List.length_replicate, length_leBytes, int64Bytes, script]
  omega

theorem serialize_coinbaseTransaction (wellFormed : values.WellFormed)
    (short : extranonce.length ≤ 40) :
    (values.coinbaseTransaction extranonce).serialize true =
        coinb1Bytes values.heightPush extranonce.length ++ (extranonce ++
          coinb2Bytes values.coinbaseValue values.scriptPubkey values.witnessScript) ∧
      (values.coinbaseTransaction extranonce).serialize false =
        leBytes 4 2 ++ ((inputHead values.heightPush extranonce.length ++ (extranonce ++
          outputTail values.coinbaseValue values.scriptPubkey values.witnessScript)) ++
          List.replicate 4 0) := by
  have script := vectorBytes_short (show (values.heightPush ++ extranonce).length < 253 by
    have bound := wellFormed.push_length.2
    rw [List.length_append]
    omega)
  rw [List.length_append] at script
  have pubkey := vectorBytes_short wellFormed.script_short
  have commitment := vectorBytes_short (show values.witnessScript.length < 253 by
    rw [wellFormed.witnessScript_length]
    omega)
  have zeros : uint256Bytes 0 = List.replicate 32 0 := by decide +kernel
  have ones : uint32Bytes 0xffffffff = List.replicate 4 0xff := by decide
  have two : uint32Bytes 2 = leBytes 4 2 := rfl
  have lockTime : uint32Bytes 0 = List.replicate 4 0 := by decide
  have counts : writeCompactSize 0 = [0] ∧ writeCompactSize 1 = [1] ∧ writeCompactSize 2 = [2] := by
    decide
  have item : vectorBytes (List.replicate 32 0) = [0x20] ++ List.replicate 32 0 := by decide
  have witness : (values.coinbaseTransaction extranonce).hasWitness = true := rfl
  constructor
  · rw [CTransaction.serialize, witness]
    simp only [Bool.and_self, if_true, coinbaseTransaction, vectorOf, CTxIn.serialize,
      COutPoint.serialize, CTxOut.serialize, CTxIn.witnessBytes, List.length_cons, List.length_nil,
      List.flatMap_cons, List.flatMap_nil, zeros, ones, two, lockTime, counts, item, script, pubkey,
      commitment, coinb1Bytes, coinb2Bytes, inputHead, outputTail, coinbaseWitness,
      List.append_assoc, List.append_nil, Nat.zero_add]
    rfl
  · rw [CTransaction.serialize]
    simp only [Bool.false_and, Bool.false_eq_true, if_false, coinbaseTransaction, vectorOf,
      CTxIn.serialize, COutPoint.serialize, CTxOut.serialize, List.length_cons, List.length_nil,
      List.flatMap_cons, List.flatMap_nil, zeros, ones, two, lockTime, counts, script, pubkey,
      commitment, inputHead, outputTail, List.append_assoc, List.append_nil, Nat.zero_add]

theorem serialize_of_twelve (wellFormed : values.WellFormed) (twelve : extranonce.length = 12) :
    (values.coinbaseTransaction extranonce).serialize true = values.coinbaseBytes extranonce ∧
      (values.coinbaseTransaction extranonce).serialize false =
        values.strippedCoinbase extranonce := by
  have forms := serialize_coinbaseTransaction wellFormed (show extranonce.length ≤ 40 by omega)
  rwa [twelve] at forms

theorem twelve_of_coinbaseBytes (wellFormed : values.WellFormed) (short : extranonce.length ≤ 40)
    {rest rest' : Bytes} (same : values.coinbaseBytes extranonce ++ rest =
      (values.coinbaseTransaction extranonce).serialize true ++ rest') :
    extranonce.length = 12 := by
  have bound := wellFormed.push_length.2
  rw [(serialize_coinbaseTransaction wellFormed short).1] at same
  simp only [coinbaseBytes, coinb1Bytes, inputHead, List.append_assoc] at same
  have scripts := List.append_cancel_left (List.append_cancel_left (List.append_cancel_left
    (List.append_cancel_left (List.append_cancel_left same))))
  have numbers := congrArg UInt8.toNat (List.cons.inj scripts).1
  rw [UInt8.toNat_ofNat_of_lt' (by show _ < 256; omega),
    UInt8.toNat_ofNat_of_lt' (by show _ < 256; omega)] at numbers
  omega

theorem onWire_coinbaseTransaction (wellFormed : values.WellFormed)
    (twelve : extranonce.length = 12) : (values.coinbaseTransaction extranonce).OnWire where
  vin_ne := List.cons_ne_nil _ _
  vin_le := show 1 ≤ maxSize by decide
  vout_le := show 2 ≤ maxSize by decide
  inputs txin listed := by
    rw [List.mem_singleton.mp listed]
    refine ⟨?_, show 1 ≤ maxSize by decide, ?_⟩
    · have bound := wellFormed.push_length.2
      show (values.heightPush ++ extranonce).length ≤ 0x02000000
      rw [List.length_append, twelve]
      omega
    · intro item listed
      rw [List.mem_singleton.mp listed]
      decide
  outputs txout listed := by
    rcases List.mem_cons.mp listed with rfl | listed
    · refine ⟨wellFormed.value, ?_⟩
      exact le_trans wellFormed.script_short.le (by decide)
    · rw [List.mem_singleton.mp listed]
      refine ⟨show IsInt64 0 by decide, ?_⟩
      show values.witnessScript.length ≤ maxSize
      rw [wellFormed.witnessScript_length]
      decide

theorem int64Bytes_injective {x y : Int} (fitsX : IsInt64 x) (fitsY : IsInt64 y)
    (same : int64Bytes x = int64Bytes y) : x = y := by
  have readX := reads_int64 fitsX
  rw [same] at readX
  exact readX.unique (reads_int64 fitsY)

theorem inputHead_injective {one two rest rest' : Bytes} {size : Nat}
    (shortOne : one.length + size < 256) (shortTwo : two.length + size < 256)
    (same : inputHead one size ++ rest = inputHead two size ++ rest') :
    one = two ∧ rest = rest' := by
  simp only [inputHead, List.append_assoc] at same
  have tails := List.append_cancel_left
    (List.append_cancel_left (List.append_cancel_left same))
  obtain ⟨heads, tails⟩ := List.cons.inj tails
  have lengths : one.length = two.length := by grind [UInt8.toNat, UInt8.toNat_ofNat_of_lt']
  exact List.append_inj tails lengths

theorem outputTail_injective {value value' : Int} {script witness witness' : Bytes}
    (fits : IsInt64 value) (fits' : IsInt64 value')
    (same : outputTail value script witness = outputTail value' script witness') :
    value = value' ∧ witness = witness' := by
  simp only [outputTail, List.append_assoc] at same
  have outputs := List.append_cancel_left (List.append_cancel_left same)
  obtain ⟨values, rest⟩ := List.append_inj outputs (by simp [int64Bytes])
  grind [List.append_cancel_left, int64Bytes_injective, List.cons.inj]

theorem strippedCoinbase_injective {one two : CoinbaseValues} {extranonce other : Bytes}
    (wellFormed : one.WellFormed) (wellFormed' : two.WellFormed)
    (script : one.scriptPubkey = two.scriptPubkey)
    (same : one.strippedCoinbase extranonce = two.strippedCoinbase other) :
    one = two ∧ extranonce = other := by
  have body := List.append_cancel_right (List.append_cancel_left same)
  have shortOne := wellFormed.push_length
  have shortTwo := wellFormed'.push_length
  obtain ⟨pushes, tails⟩ := inputHead_injective (by omega) (by omega) body
  have widths : (outputTail one.coinbaseValue one.scriptPubkey one.witnessScript).length =
      (outputTail two.coinbaseValue two.scriptPubkey two.witnessScript).length := by
    simp only [outputTail, int64Bytes, List.length_append, List.length_cons, List.length_nil,
      length_leBytes, script, wellFormed.witnessScript_length, wellFormed'.witnessScript_length]
  obtain ⟨extranonces, outputs⟩ := List.append_inj' tails widths
  rw [script] at outputs
  obtain ⟨values, commitments⟩ := outputTail_injective wellFormed.value wellFormed'.value outputs
  refine ⟨?_, extranonces⟩
  cases one
  cases two
  exact CoinbaseValues.mk.injEq .. ▸ ⟨pushes, values, script, commitments⟩

end CoinbaseValues

end QuantBTC.Pool
