/-
# Pool.Branches -- the Merkle branches of a job

`_compute_merkle_branches` lists what a miner hashes a coinbase with, level by level.  It takes
the first txid of a level as the branch and then pairs the level from that txid on, where the
tree pairs it with the coinbase's side and starts the next pair one further: from two txids on the
second branch is a node that the tree does not have.  No job carries the result: the template
updater sets `merkle_branches` to the empty list.
-/
import QuantBTC.Pool.Job
import QuantBTC.Primitives.BlockSerialization
import QuantBTC.Primitives.BlockBody

namespace QuantBTC.Pool

set_option autoImplicit false

open Primitives Theory.Hex

/-! ## The function -/

def displayHex (hash : Uint256) : Text := toHex (uint256Bytes hash).reverse

def nextLevel (hashes : HashFunctions) : List Bytes → List Bytes
  | [] => []
  | [left] => [sha256d hashes (left ++ left)]
  | left :: right :: rest => sha256d hashes (left ++ right) :: nextLevel hashes rest

def branchLoop (hashes : HashFunctions) : Nat → List Bytes → List Text
  | 0, _ => []
  | _ + 1, [] => []
  | _ + 1, [only] => [toHex only]
  | fuel + 1, first :: second :: rest =>
    toHex first :: branchLoop hashes fuel (nextLevel hashes (first :: second :: rest))

def computeMerkleBranches (hashes : HashFunctions) (txids : List Text) : Option (List Text) := do
  let level ← txids.mapM fun txid => (fromHex txid).map List.reverse
  some (branchLoop hashes level.length level)

/-! ## On hashes -/

section Path

variable (hash256 : Bytes → Uint256)

def levelHeads : Nat → List Uint256 → List Uint256
  | 0, _ => []
  | _ + 1, [] => []
  | _ + 1, [only] => [only]
  | fuel + 1, first :: second :: rest =>
    first :: levelHeads fuel ((levelInputs (first :: second :: rest)).map hash256)

def climb (leaf : Uint256) (siblings : List Uint256) : Uint256 :=
  siblings.foldl (fun root sibling => hash256 (nodeBytes root sibling)) leaf

end Path

variable (hashes : HashFunctions)

theorem nextLevel_eq (level : List Uint256) :
    nextLevel hashes (level.map uint256Bytes)
      = ((levelInputs level).map hashes.hash256).map uint256Bytes := by
  induction level using levelInputs.induct with
  | case1 => rfl
  | case2 last => rfl
  | case3 left right rest ih =>
    rw [List.map_cons, List.map_cons, nextLevel, ih]
    rfl

theorem branchLoop_eq (fuel : Nat) (level : List Uint256) :
    branchLoop hashes fuel (level.map uint256Bytes)
      = (levelHeads hashes.hash256 fuel level).map fun hash => toHex (uint256Bytes hash) := by
  induction fuel generalizing level with
  | zero => rfl
  | succ fuel ih =>
    match level with
    | [] => rfl
    | [only] => rfl
    | first :: second :: rest =>
      have above := nextLevel_eq hashes (first :: second :: rest)
      rw [List.map_cons, List.map_cons] at above ⊢
      rw [branchLoop, above, ih, levelHeads, List.map_cons]

theorem computeMerkleBranches_eq (txids : List Uint256) :
    computeMerkleBranches hashes (txids.map displayHex)
      = some ((levelHeads hashes.hash256 txids.length txids).map
          fun hash => toHex (uint256Bytes hash)) := by
  have read : ((txids.map displayHex).mapM fun txid => (fromHex txid).map List.reverse)
      = some (txids.map uint256Bytes) := by
    induction txids with
    | nil => rfl
    | cons txid txids ih =>
      rw [List.map_cons, List.mapM_cons, ih, displayHex, fromHex_toHex]
      simp
  rw [computeMerkleBranches, read, Option.bind_eq_bind, Option.bind_some, List.length_map,
    branchLoop_eq]

theorem merkleRootAlong_eq (leaf : Uint256) (siblings : List Uint256) :
    merkleRootAlong hashes (uint256Bytes leaf) (siblings.map fun hash => toHex (uint256Bytes hash))
      = some (uint256Bytes (climb hashes.hash256 leaf siblings)) := by
  induction siblings generalizing leaf with
  | nil => rfl
  | cons sibling siblings ih =>
    rw [List.map_cons, merkleRootAlong, fromHex_toHex, Option.bind_eq_bind, Option.bind_some]
    exact ih (hashes.hash256 (nodeBytes leaf sibling))

theorem merkleRootAlong_branches (coinbase : Uint256) (txids : List Uint256) :
    (computeMerkleBranches hashes (txids.map displayHex)).bind
        (merkleRootAlong hashes (uint256Bytes coinbase))
      = some (uint256Bytes (climb hashes.hash256 coinbase
          (levelHeads hashes.hash256 txids.length txids))) := by
  rw [computeMerkleBranches_eq, Option.bind_some, merkleRootAlong_eq]

def Rebuilds (hashes : HashFunctions) (coinbase : Uint256) (txids : List Uint256) : Prop :=
  (computeMerkleBranches hashes (txids.map displayHex)).bind
      (merkleRootAlong hashes (uint256Bytes coinbase))
    = some (uint256Bytes (computeMerkleRoot hashes.hash256 (coinbase :: txids)))

theorem rebuilds_iff (coinbase : Uint256) (txids : List Uint256) :
    Rebuilds hashes coinbase txids ↔
      climb hashes.hash256 coinbase (levelHeads hashes.hash256 txids.length txids)
        = computeMerkleRoot hashes.hash256 (coinbase :: txids) := by
  rw [Rebuilds, merkleRootAlong_branches, Option.some_inj, uint256Bytes_injective.eq_iff]

/-! ## A hash that counts -/

def tallyHashes : HashFunctions where
  sha256 bytes :=
    if bytes.length = 64 then
      Fin.ofNat (2 ^ 256)
        (min 2 ((uint256OfBytes (bytes.take 32)).val + (uint256OfBytes (bytes.drop 32)).val))
    else uint256OfBytes bytes
  ripemd160 bytes := bytes
  sha1 bytes := bytes

theorem tally_node (left right : Uint256) :
    tallyHashes.hash256 (nodeBytes left right)
      = Fin.ofNat (2 ^ 256) (min 2 (left.val + right.val)) := by
  have back (x : Uint256) : uint256OfBytes (uint256Bytes x) = x :=
    uint256Bytes_injective (uint256Bytes_uint256OfBytes (length_uint256Bytes x))
  have width : (nodeBytes left right).length = 64 := by simp [nodeBytes]
  have first : (nodeBytes left right).take 32 = uint256Bytes left := by simp [nodeBytes]
  have second : (nodeBytes left right).drop 32 = uint256Bytes right := by simp [nodeBytes]
  simp only [HashFunctions.hash256, tallyHashes, width, first, second, back, length_uint256Bytes]
  simp

theorem tally_zeros {level : List Uint256} (zeros : ∀ hash ∈ level, hash = 0) :
    ∀ hash ∈ (levelInputs level).map tallyHashes.hash256, hash = 0 := by
  induction level using levelInputs.induct with
  | case1 => simp [levelInputs]
  | case2 last =>
    simp only [List.mem_singleton, forall_eq] at zeros
    simp [levelInputs, tally_node, zeros]
  | case3 left right rest ih =>
    simp only [List.mem_cons, forall_eq_or_imp] at zeros
    simp only [levelInputs, List.map_cons, List.mem_cons, forall_eq_or_imp]
    exact ⟨by rw [tally_node, zeros.1, zeros.2.1]; rfl, ih zeros.2.2⟩

theorem tally_root {fuel : Nat} {zeros : List Uint256} (all : ∀ hash ∈ zeros, hash = 0)
    (enough : zeros.length ≤ fuel) :
    merkleLoop tallyHashes.hash256 fuel (1 :: zeros) = [1] := by
  induction fuel generalizing zeros with
  | zero =>
    rw [List.length_eq_zero_iff.mp (Nat.le_zero.mp enough)]
    rfl
  | succ fuel ih =>
    cases zeros with
    | nil => rfl
    | cons zero zeros =>
      simp only [List.mem_cons, forall_eq_or_imp] at all
      have one : tallyHashes.hash256 (nodeBytes 1 zero) = 1 := by
        rw [tally_node, all.1]
        rfl
      have length := length_levelInputs zeros
      rw [List.length_cons] at enough
      rw [merkleLoop, if_pos (by simp), levelInputs, List.map_cons, one]
      refine ih (tally_zeros all.2) ?_
      rw [List.length_map]
      omega

theorem tally_climb (siblings : List Uint256) : climb tallyHashes.hash256 2 siblings = 2 := by
  induction siblings with
  | nil => rfl
  | cons sibling siblings ih =>
    have full : tallyHashes.hash256 (nodeBytes 2 sibling) = 2 := by
      rw [tally_node, show (2 : Uint256).val = 2 from rfl, Nat.min_eq_left (by omega)]
      rfl
    rw [climb, List.foldl_cons, full]
    exact ih

theorem tally_not_rebuilds (count : Nat) :
    ¬ Rebuilds tallyHashes 0 (1 :: 0 :: List.replicate count 0) := by
  have one : tallyHashes.hash256 (nodeBytes 0 1) = 1 := by rw [tally_node]; rfl
  have again : tallyHashes.hash256 (nodeBytes 1 0) = 1 := by rw [tally_node]; rfl
  have two : tallyHashes.hash256 (nodeBytes 1 1) = 2 := by rw [tally_node]; rfl
  have root : computeMerkleRoot tallyHashes.hash256 (0 :: 1 :: 0 :: List.replicate count 0) = 1 := by
    have zeros : ∀ hash ∈ 0 :: List.replicate count (0 : Uint256), hash = 0 := by simp
    have length := length_levelInputs (0 :: List.replicate count 0)
    rw [List.length_cons, List.length_replicate] at length
    rw [computeMerkleRoot, List.length_cons, merkleLoop, if_pos (by simp), levelInputs,
      List.map_cons, one, tally_root (tally_zeros zeros)]
    · rfl
    · simp only [List.length_map, List.length_cons, List.length_replicate, length]
      omega
  -- The second level of txids starts with a node over the first txid again.
  obtain ⟨later, heads⟩ : ∃ later, levelHeads tallyHashes.hash256
      (1 :: 0 :: List.replicate count (0 : Uint256)).length (1 :: 0 :: List.replicate count 0)
        = 1 :: 1 :: later := by
    rw [List.length_cons, List.length_cons, levelHeads, levelInputs, List.map_cons, again]
    cases (levelInputs (List.replicate count (0 : Uint256))).map tallyHashes.hash256 with
    | nil => exact ⟨[], rfl⟩
    | cons => exact ⟨_, rfl⟩
  rw [rebuilds_iff, root, heads, climb, List.foldl_cons, List.foldl_cons, one, two]
  exact fun same => absurd ((tally_climb later).symm.trans same) (by decide)

/-! ## When the root is rebuilt -/

def pairStrings (hash256 : Bytes → Uint256) (coinbase first second : Uint256) : List Bytes :=
  [nodeBytes first second, nodeBytes second second,
    nodeBytes (hash256 (nodeBytes coinbase first)) (hash256 (nodeBytes first second)),
    nodeBytes (hash256 (nodeBytes coinbase first)) (hash256 (nodeBytes second second))]

theorem nodeBytes_inj {left left' right right' : Uint256}
    (same : nodeBytes left right = nodeBytes left' right') : left = left' ∧ right = right' := by
  have halves := List.append_inj same (by rw [length_uint256Bytes, length_uint256Bytes])
  exact ⟨uint256Bytes_injective halves.1, uint256Bytes_injective halves.2⟩

theorem twoTxids_wrong_root {hashes : HashFunctions} {coinbase first second : Uint256}
    (different : first ≠ second)
    (noCollision : Set.InjOn hashes.hash256
      {input | input ∈ pairStrings hashes.hash256 coinbase first second}) :
    ¬ Rebuilds hashes coinbase [first, second] := by
  rw [rebuilds_iff]
  intro same
  have roots := noCollision (by simp [pairStrings]) (by simp [pairStrings]) same
  have nodes := noCollision (by simp [pairStrings]) (by simp [pairStrings]) (nodeBytes_inj roots).2
  exact different (nodeBytes_inj nodes).1

end QuantBTC.Pool
