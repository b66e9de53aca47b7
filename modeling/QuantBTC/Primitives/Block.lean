/-
# Primitives.Block -- block headers and blocks

`CBlockHeader` with the DAG fields.  A header whose version has the DAG bit commits
to its extra parents by `hashParentsRoot`; only such a header hashes that field.
`hash256` is the double SHA-256 of `HashWriter::GetHash`, a parameter throughout.
-/
import QuantBTC.Primitives.Bytes
import QuantBTC.Primitives.Transaction

namespace QuantBTC.Primitives

set_option autoImplicit false

def blockVersionDagmode : Int32 := (1 : Int32) <<< 28

structure CBlockHeader where
  nVersion : Int32 := 0
  hashPrevBlock : Uint256 := 0
  hashMerkleRoot : Uint256 := 0
  nTime : UInt32 := 0
  nBits : UInt32 := 0
  nNonce : UInt32 := 0
  hashParentsRoot : Uint256 := 0
  hashParents : List Uint256 := []
deriving DecidableEq, Repr

namespace CBlockHeader

def isDagBlock (header : CBlockHeader) : Bool := header.nVersion &&& blockVersionDagmode != 0

def Received (header : CBlockHeader) : Prop :=
  header.isDagBlock = true ∨ (header.hashParentsRoot = 0 ∧ header.hashParents = [])

instance (header : CBlockHeader) : Decidable header.Received := by
  unfold Received
  infer_instance

variable (hash256 : Bytes → Uint256)

def computeParentsRoot (parents : List Uint256) : Uint256 :=
  if parents.isEmpty then 0 else hash256 (parents.flatMap uint256Bytes)

def hashedBytes (header : CBlockHeader) : Bytes :=
  leBytes 4 header.nVersion.toUInt32.toNat ++ uint256Bytes header.hashPrevBlock ++
    uint256Bytes header.hashMerkleRoot ++ leBytes 4 header.nTime.toNat ++
    leBytes 4 header.nBits.toNat ++
    (if header.isDagBlock then uint256Bytes header.hashParentsRoot else []) ++
    leBytes 4 header.nNonce.toNat

def getHash (header : CBlockHeader) : Uint256 := hash256 header.hashedBytes

end CBlockHeader

structure CBlock extends CBlockHeader where
  vtx : List CTransaction := []
deriving DecidableEq, Repr

end QuantBTC.Primitives
