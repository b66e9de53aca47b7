/-
# Primitives.Transaction -- transactions and the hash functions

The fields of a `CTransaction` that scripts and signature hashes read, with their
serialisations, and the hash functions of the source as parameters.
-/
import QuantBTC.Primitives.Bytes

namespace QuantBTC.Primitives

set_option autoImplicit false

structure HashFunctions where
  sha256 : Bytes → Uint256
  ripemd160 : Bytes → Bytes
  sha1 : Bytes → Bytes

namespace HashFunctions

def hash256 (hashes : HashFunctions) (bytes : Bytes) : Uint256 :=
  hashes.sha256 (uint256Bytes (hashes.sha256 bytes))

def hash160 (hashes : HashFunctions) (bytes : Bytes) : Bytes :=
  hashes.ripemd160 (uint256Bytes (hashes.sha256 bytes))

end HashFunctions

def digitHashes : HashFunctions where
  sha256 := digitHash
  ripemd160 bytes := (uint256Bytes (digitHash bytes)).take 20
  sha1 bytes := (uint256Bytes (digitHash bytes)).take 20

structure COutPoint where
  hash : Uint256
  n : UInt32
deriving DecidableEq, Repr

def COutPoint.isNull (outpoint : COutPoint) : Bool :=
  outpoint.hash == 0 && outpoint.n == 0xffffffff

/-- `CTxIn`. -/
structure CTxIn where
  prevout : COutPoint
  scriptSig : Bytes := []
  nSequence : UInt32 := 0xffffffff
  scriptWitness : List Bytes := []
deriving DecidableEq, Repr

structure CTxOut where
  nValue : Int := -1
  scriptPubKey : Bytes := []
deriving DecidableEq, Repr

structure CTransaction where
  vin : List CTxIn
  vout : List CTxOut
  version : UInt32 := 2
  nLockTime : UInt32 := 0
deriving DecidableEq, Repr

def CTransaction.isCoinBase (tx : CTransaction) : Bool :=
  match tx.vin with
  | [txin] => txin.prevout.isNull
  | _ => false

/-! ## Serialisation -/

def uint32Bytes (x : UInt32) : Bytes := leBytes 4 x.toNat

def int64Bytes (x : Int) : Bytes := leBytes 8 (x % 2 ^ 64).toNat

def vectorBytes (bytes : Bytes) : Bytes := writeCompactSize bytes.length ++ bytes

def COutPoint.serialize (outpoint : COutPoint) : Bytes :=
  uint256Bytes outpoint.hash ++ uint32Bytes outpoint.n

def CTxOut.serialize (txout : CTxOut) : Bytes :=
  int64Bytes txout.nValue ++ vectorBytes txout.scriptPubKey

end QuantBTC.Primitives
