/-
# Node.BlockIndex -- the block index

`CBlockIndex` and the map of all entries.  Entries are never removed, so a pointer to one
is its hash.  `GetAncestor` follows `pprev`; its skip list is a shortcut only.
-/
import QuantBTC.Dag.GhostdagBlockindex
import QuantBTC.Pow.Difficulty
import QuantBTC.Primitives.Block

namespace QuantBTC.Node

set_option autoImplicit false

open Primitives Dag

/-! ## Entries -/

inductive BlockValidity where
  | unknown
  | reserved
  | tree
  | transactions
  | chain
  | scripts
deriving DecidableEq, Repr

def BlockValidity.level : BlockValidity → Nat
  | unknown => 0
  | reserved => 1
  | tree => 2
  | transactions => 3
  | chain => 4
  | scripts => 5

structure BlockStatus where
  validity : BlockValidity := .unknown
  haveData : Bool := false
  failedValid : Bool := false
  failedChild : Bool := false
deriving DecidableEq, Repr

def BlockStatus.failed (nStatus : BlockStatus) : Bool := nStatus.failedValid || nStatus.failedChild

structure CBlockIndex where
  pprev : Option Uint256 := none
  nHeight : Nat := 0
  nChainWork : Nat := 0
  nTx : UInt32 := 0
  mChainTxCount : UInt64 := 0
  nStatus : BlockStatus := {}
  nVersion : Int32 := 0
  hashMerkleRoot : Uint256 := 0
  nTime : UInt32 := 0
  nBits : UInt32 := 0
  hashParentsRoot : Uint256 := 0
  nNonce : UInt32 := 0
  vDagParents : List Uint256 := []
  dagData : GhostdagData := {}
  nDagHeight : Nat := 0
  nSequenceId : Int32 := 0
deriving DecidableEq, Repr

namespace CBlockIndex

def ofHeader (block : CBlockHeader) : CBlockIndex where
  nVersion := block.nVersion
  hashMerkleRoot := block.hashMerkleRoot
  nTime := block.nTime
  nBits := block.nBits
  hashParentsRoot := block.hashParentsRoot
  nNonce := block.nNonce

def isValid (pindex : CBlockIndex) (upTo : BlockValidity) : Bool :=
  !pindex.nStatus.failed && decide (upTo.level ≤ pindex.nStatus.validity.level)

def raiseValidity (pindex : CBlockIndex) (upTo : BlockValidity) : CBlockIndex :=
  if pindex.nStatus.failed then pindex
  else if pindex.nStatus.validity.level < upTo.level then
    { pindex with nStatus := { pindex.nStatus with validity := upTo } }
  else pindex

def setFailedValid (pindex : CBlockIndex) : CBlockIndex :=
  { pindex with nStatus := { pindex.nStatus with failedValid := true } }

def setFailedChild (pindex : CBlockIndex) : CBlockIndex :=
  { pindex with nStatus := { pindex.nStatus with failedChild := true } }

def setParents (vDagParents : List Uint256) (pindex : CBlockIndex) : CBlockIndex :=
  { pindex with vDagParents }

def setScore (dagData : GhostdagData) (pindex : CBlockIndex) : CBlockIndex :=
  { pindex with dagData, nDagHeight := dagData.blueScore }

def setData (vtx : List CTransaction) (pindex : CBlockIndex) : CBlockIndex :=
  { pindex with
    nTx := UInt32.ofNat vtx.length
    nStatus := { pindex.nStatus with haveData := true } }

def haveNumChainTxs (pindex : CBlockIndex) : Bool := pindex.mChainTxCount != 0

def allParents (pindex : CBlockIndex) : List Uint256 := pindex.pprev.toList ++ pindex.vDagParents

def getBlockHeader (pindex : CBlockIndex) : CBlockHeader where
  nVersion := pindex.nVersion
  hashPrevBlock := pindex.pprev.getD 0
  hashMerkleRoot := pindex.hashMerkleRoot
  nTime := pindex.nTime
  nBits := pindex.nBits
  hashParentsRoot := pindex.hashParentsRoot
  nNonce := pindex.nNonce
  hashParents := pindex.vDagParents

def dagEntry (pindex : CBlockIndex) : DagEntry where
  pprev := pindex.pprev
  nHeight := pindex.nHeight
  nBits := pindex.nBits
  vDagParents := pindex.vDagParents
  dagData := pindex.dagData

def blockEntry (pindex : CBlockIndex) : Pow.BlockEntry where
  nTime := pindex.nTime
  nBits := pindex.nBits
  mChainTxCount := pindex.mChainTxCount

def core (pindex : CBlockIndex) : CBlockIndex :=
  { pindex with
    nStatus := { haveData := pindex.nStatus.haveData }
    mChainTxCount := 0
    nSequenceId := 0 }

theorem raiseValidity_congr {β : Type} (read : CBlockIndex → β)
    (reads : ∀ (pindex : CBlockIndex) (validity : BlockValidity),
      read { pindex with nStatus := { pindex.nStatus with validity } } = read pindex)
    (pindex : CBlockIndex) (upTo : BlockValidity) :
    read (pindex.raiseValidity upTo) = read pindex := by
  unfold raiseValidity
  split
  · rfl
  · split
    · exact reads pindex upTo
    · rfl

@[simp] theorem core_raiseValidity (pindex : CBlockIndex) (upTo : BlockValidity) :
    (pindex.raiseValidity upTo).core = pindex.core :=
  raiseValidity_congr core (fun _ _ => rfl) pindex upTo

theorem haveData_eq_of_core {p q : CBlockIndex} (same : p.core = q.core) :
    p.nStatus.haveData = q.nStatus.haveData := by
  change p.core.nStatus.haveData = q.core.nStatus.haveData
  rw [same]

end CBlockIndex

/-! ## The index -/

abbrev BlockMap := AList fun _ : Uint256 => CBlockIndex

namespace BlockMap

def dagView (index : BlockMap) : DagView := fun hash => (index.lookup hash).map CBlockIndex.dagEntry

def provider (index : BlockMap) : IGhostdagBlockProvider := index.dagView.provider

def modify (index : BlockMap) (hash : Uint256) (change : CBlockIndex → CBlockIndex) : BlockMap :=
  match index.lookup hash with
  | none => index
  | some pindex => index.insert hash (change pindex)

def ancestorBelow (index : BlockMap) : Nat → Uint256 → Option Uint256
  | 0, hash => some hash
  | steps + 1, hash =>
    match index.lookup hash with
    | none => none
    | some pindex =>
      match pindex.pprev with
      | none => none
      | some prev => ancestorBelow index steps prev

def getAncestor (index : BlockMap) (hash : Uint256) (height : Nat) : Option Uint256 :=
  match index.lookup hash with
  | none => none
  | some pindex =>
    if height > pindex.nHeight then none else ancestorBelow index (pindex.nHeight - height) hash

def entriesFrom (index : BlockMap) : Nat → Option Uint256 → List Pow.BlockEntry
  | 0, _ => []
  | _ + 1, none => []
  | limit + 1, some hash =>
    match index.lookup hash with
    | none => []
    | some pindex => pindex.blockEntry :: entriesFrom index limit pindex.pprev

def chainOf (index : BlockMap) (pindex : CBlockIndex) : Pow.Chain where
  last := pindex.blockEntry
  ancestors := index.entriesFrom pindex.nHeight pindex.pprev

def nMedianTimeSpan : Nat := 11

def getMedianTimePast (index : BlockMap) (pindex : CBlockIndex) : Int :=
  let times := (pindex.blockEntry :: index.entriesFrom (nMedianTimeSpan - 1) pindex.pprev).map
    Pow.BlockEntry.getBlockTime
  (times.insertionSort (· ≤ ·)).getD (times.length / 2) 0

/-! ### Lookups -/

variable {index : BlockMap} {hash other : Uint256} {change : CBlockIndex → CBlockIndex}

theorem lookup_modify_self : (index.modify hash change).lookup hash = (index.lookup hash).map change := by
  grind [modify, Option.map_none, AList.lookup_insert, Option.map_some]

theorem lookup_modify_of_ne (ne : other ≠ hash) :
    (index.modify hash change).lookup other = index.lookup other := by
  unfold modify
  split
  · rfl
  · exact AList.lookup_insert_ne ne

theorem modify_modify (later : CBlockIndex → CBlockIndex) :
    (index.modify hash change).modify hash later
      = index.modify hash fun pindex => later (change pindex) := by
  unfold modify
  cases found : index.lookup hash with
  | none => simp only [found]
  | some pindex => simp only [AList.lookup_insert, AList.insert_insert]

theorem map_lookup_modify {β : Type} (read : CBlockIndex → β)
    (keeps : ∀ pindex, read (change pindex) = read pindex) :
    ((index.modify hash change).lookup other).map read = (index.lookup other).map read := by
  by_cases same : other = hash
  · subst same
    rw [lookup_modify_self, Option.map_map]
    exact congrArg (Option.map · _) (funext keeps)
  · rw [lookup_modify_of_ne same]

/-! ### Changes that keep the cores -/

def SameCores (index later : BlockMap) : Prop :=
  ∀ hash, (later.lookup hash).map CBlockIndex.core = (index.lookup hash).map CBlockIndex.core

variable {later final : BlockMap}

theorem SameCores.refl (index : BlockMap) : SameCores index index := fun _ => rfl

theorem SameCores.trans (first : SameCores index later) (second : SameCores later final) :
    SameCores index final :=
  fun hash => (second hash).trans (first hash)

theorem SameCores.modify (keeps : ∀ pindex, (change pindex).core = pindex.core) :
    SameCores index (index.modify hash change) :=
  fun _ => map_lookup_modify CBlockIndex.core keeps

theorem SameCores.modify_congr {change' : CBlockIndex → CBlockIndex}
    (same : ∀ pindex, (change' pindex).core = (change pindex).core) :
    SameCores (index.modify hash change) (index.modify hash change') := by
  intro other
  by_cases eq : other = hash
  · subst eq
    rw [lookup_modify_self, lookup_modify_self, Option.map_map, Option.map_map]
    exact congrArg (Option.map · _) (funext same)
  · rw [lookup_modify_of_ne eq, lookup_modify_of_ne eq]

theorem SameCores.lookup (same : SameCores index later) {pindex : CBlockIndex}
    (found : index.lookup hash = some pindex) :
    ∃ pindex', later.lookup hash = some pindex' ∧ pindex'.core = pindex.core := by
  have eq := same hash
  rw [found, Option.map_some] at eq
  exact Option.map_eq_some_iff.mp eq

/-! ### Changes that keep the headers -/

def SameHeaders (index later : BlockMap) : Prop :=
  ∀ hash, (later.lookup hash).map CBlockIndex.getBlockHeader
    = (index.lookup hash).map CBlockIndex.getBlockHeader

theorem SameHeaders.refl (index : BlockMap) : SameHeaders index index := fun _ => rfl

theorem SameHeaders.trans (first : SameHeaders index later) (second : SameHeaders later final) :
    SameHeaders index final :=
  fun hash => (second hash).trans (first hash)

theorem SameCores.sameHeaders (same : SameCores index later) : SameHeaders index later := by
  have throughCore : ∀ entry : Option CBlockIndex, entry.map CBlockIndex.getBlockHeader
      = (entry.map CBlockIndex.core).map CBlockIndex.getBlockHeader := by
    intro entry
    cases entry with
    | none => rfl
    | some pindex => rfl
  intro hash
  rw [throughCore, same hash, ← throughCore]

theorem SameHeaders.modify
    (keeps : ∀ pindex, index.lookup hash = some pindex →
      (change pindex).getBlockHeader = pindex.getBlockHeader) :
    SameHeaders index (index.modify hash change) := by
  intro other
  by_cases same : other = hash
  · subst same
    rw [lookup_modify_self]
    cases found : index.lookup other with
    | none => rfl
    | some pindex => exact congrArg some (keeps pindex found)
  · rw [lookup_modify_of_ne same]

end BlockMap

end QuantBTC.Node
