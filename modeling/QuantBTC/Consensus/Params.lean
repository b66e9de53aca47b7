/-
# Consensus.Params -- the consensus parameters of the DAG chains

The fields of `Consensus::Params` that the modelled functions read, with the
default member initialisers of the source, and the parameter sets of the chains
that run in DAG mode: the two public chains (`CQbtcTestNetParams`,
`CQbtcMainParams`) and `CRegTestParams`.

`int`, `int64_t` and `uint32_t` parameters are natural numbers: every chain sets
them to a nonnegative constant and no function changes them.  `powLimit` is the
number `UintToArith256` reads off the source's `uint256`.
-/
import Mathlib

namespace QuantBTC.Consensus

set_option autoImplicit false

def unscheduledHeight : Nat := 2 ^ 31 - 1

structure Params where
  nSubsidyHalvingInterval : Nat
  BIP34Height : Nat
  BIP65Height : Nat
  BIP66Height : Nat
  CSVHeight : Nat
  SegwitHeight : Nat
  powLimit : Nat
  fPowAllowMinDifficultyBlocks : Bool
  enforceBIP94 : Bool
  fPowNoRetargeting : Bool
  nPowTargetSpacing : Nat
  nPowTargetTimespan : Nat
  nMinimumChainWork : Nat := 0
  fDagMode : Bool := false
  ghostdagK : Nat := 32
  nDagTargetSpacingMs : Nat := 1000
  nDagDiffWindowSize : Nat := 4032
  fDagUseEma : Bool := false
  nDagEmaFastHalfLife : Nat := 12
  nDagEmaSlowHalfLife : Nat := 72
  nDagEmaMaxAdjust : Nat := 3000
  nMaxDagParents : Nat := 64
  nHybridSigHeight : Nat := unscheduledHeight
  nLoadDiffBaseline : Nat := 0
  nLoadDiffMaxMultiplier : Nat := 4
deriving DecidableEq, Repr

def Params.difficultyAdjustmentInterval (params : Params) : Nat :=
  params.nPowTargetTimespan / params.nPowTargetSpacing

def qbtcTestNetParams : Params where
  nSubsidyHalvingInterval := 12600000
  BIP34Height := 1
  BIP65Height := 1
  BIP66Height := 1
  CSVHeight := 1
  SegwitHeight := 0
  powLimit := 0x00000fffffffffffffffffffffffffffffffffffffffffffffffffffffffffff
  nPowTargetTimespan := 1280
  nPowTargetSpacing := 10
  fPowAllowMinDifficultyBlocks := false
  enforceBIP94 := false
  fPowNoRetargeting := false
  fDagMode := true
  ghostdagK := 32
  nDagTargetSpacingMs := 10000
  nMaxDagParents := 64
  nHybridSigHeight := unscheduledHeight
  nDagDiffWindowSize := 256
  fDagUseEma := true
  nDagEmaFastHalfLife := 12
  nDagEmaSlowHalfLife := 72
  nDagEmaMaxAdjust := 3000
  nLoadDiffBaseline := 200
  nLoadDiffMaxMultiplier := 4

def qbtcMainParams : Params where
  nSubsidyHalvingInterval := 126000000
  BIP34Height := 1
  BIP65Height := 1
  BIP66Height := 1
  CSVHeight := 1
  SegwitHeight := 0
  powLimit := 0x00000000ffffffffffffffffffffffffffffffffffffffffffffffffffffffff
  nPowTargetTimespan := 2016
  nPowTargetSpacing := 1
  fPowAllowMinDifficultyBlocks := false
  enforceBIP94 := false
  fPowNoRetargeting := false
  fDagMode := true
  ghostdagK := 18
  nDagTargetSpacingMs := 1000
  nMaxDagParents := 32
  nHybridSigHeight := unscheduledHeight
  nLoadDiffBaseline := 200
  nLoadDiffMaxMultiplier := 4

def regTestParams : Params where
  nSubsidyHalvingInterval := 150
  BIP34Height := 1
  BIP65Height := 1
  BIP66Height := 1
  CSVHeight := 1
  SegwitHeight := 0
  powLimit := 0x7fffffffffffffffffffffffffffffffffffffffffffffffffffffffffffffff
  nPowTargetTimespan := 24 * 60 * 60
  nPowTargetSpacing := 10 * 60
  fPowAllowMinDifficultyBlocks := true
  enforceBIP94 := true
  fPowNoRetargeting := true
  fDagMode := true
  ghostdagK := 32
  nDagTargetSpacingMs := 500
  nMaxDagParents := 64
  nHybridSigHeight := 200

inductive DagChain where
  | qbtcTestNet
  | qbtcMain
deriving DecidableEq, Repr

def DagChain.consensus : DagChain → Params
  | .qbtcTestNet => qbtcTestNetParams
  | .qbtcMain => qbtcMainParams

def DagChain.genesisBits : DagChain → UInt32
  | .qbtcTestNet => 0x1e0fffff
  | .qbtcMain => 0x1d00ffff

def DagChain.genesisTime : DagChain → UInt32
  | .qbtcTestNet => 1743379200
  | .qbtcMain => 1743379200

theorem DagChain.consensus_fDagMode (chain : DagChain) : chain.consensus.fDagMode = true := by
  cases chain <;> rfl

end QuantBTC.Consensus
