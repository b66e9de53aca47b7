/-
# Net.HeadersSync -- downloading a peer's headers twice

`HeadersSyncState`: in PRESYNC the headers are checked for work and every 615th leaves
a one-bit commitment; once they show enough work they are downloaded again, compared
with the commitments and kept, compressed, in a buffer, from which they are released
when enough of them lie on top or the work is reached (REDOWNLOAD).

The object's `const` members are a `SyncConfig`, the others a `HeadersSyncState`; each
member function returns the new state with its result.  The clock and the random
offset of the constructor enter as `mMaxCommitments` and `mCommitOffset`.
-/
import QuantBTC.Pow.Difficulty
import QuantBTC.Primitives.Block

namespace QuantBTC.Net

set_option autoImplicit false

open Consensus Primitives Pow

def headerCommitmentPeriod : Nat := 615

def redownloadBufferSize : Nat := 14621

/-! ## Compressed headers -/

structure CompressedHeader where
  nVersion : Int32
  hashMerkleRoot : Uint256
  nTime : UInt32
  nBits : UInt32
  nNonce : UInt32
deriving DecidableEq, Repr

def CompressedHeader.ofHeader (header : CBlockHeader) : CompressedHeader where
  nVersion := header.nVersion
  hashMerkleRoot := header.hashMerkleRoot
  nTime := header.nTime
  nBits := header.nBits
  nNonce := header.nNonce

def CompressedHeader.getFullHeader (compressed : CompressedHeader) (hashPrevBlock : Uint256) :
    CBlockHeader where
  nVersion := compressed.nVersion
  hashPrevBlock := hashPrevBlock
  hashMerkleRoot := compressed.hashMerkleRoot
  nTime := compressed.nTime
  nBits := compressed.nBits
  nNonce := compressed.nNonce

/-! ## State -/

structure ChainStart where
  nHeight : Nat
  nBits : UInt32
  nChainWork : Nat
  blockHash : Uint256
  header : CBlockHeader

structure SyncConfig where
  mConsensusParams : Params
  mCommitOffset : Nat
  mChainStart : ChainStart
  mMinimumRequiredWork : Nat
  mMaxCommitments : Nat
  hash256 : Bytes → Uint256
  mHasher : Uint256 → Nat

inductive State where
  | presync
  | redownload
  | final
deriving DecidableEq, Repr

structure HeadersSyncState where
  mCurrentChainWork : Nat
  mHeaderCommitments : List Bool := []
  mLastHeaderReceived : CBlockHeader
  mCurrentHeight : Nat
  mRedownloadedHeaders : List CompressedHeader := []
  mRedownloadBufferLastHeight : Nat := 0
  mRedownloadBufferLastHash : Uint256 := 0
  mRedownloadBufferFirstPrevHash : Uint256 := 0
  mRedownloadChainWork : Nat := 0
  mProcessAllRemainingHeaders : Bool := false
  mDownloadState : State := .presync
deriving DecidableEq, Repr

structure ProcessingResult where
  powValidatedHeaders : List CBlockHeader := []
  success : Bool := false
  requestMore : Bool := false
deriving DecidableEq, Repr

namespace HeadersSyncState

variable (config : SyncConfig)

def init : HeadersSyncState where
  mCurrentChainWork := config.mChainStart.nChainWork
  mLastHeaderReceived := config.mChainStart.header
  mCurrentHeight := config.mChainStart.nHeight

def finalize (state : HeadersSyncState) : HeadersSyncState :=
  { state with
    mHeaderCommitments := []
    mLastHeaderReceived := {}
    mRedownloadedHeaders := []
    mRedownloadBufferLastHash := 0
    mRedownloadBufferFirstPrevHash := 0
    mProcessAllRemainingHeaders := false
    mCurrentHeight := 0
    mDownloadState := .final }

def commitmentBit (header : CBlockHeader) : Bool :=
  config.mHasher (header.getHash config.hash256) % 2 = 1

/-! ## PRESYNC -/

def validateAndProcessSingleHeader (state : HeadersSyncState) (current : CBlockHeader) :
    HeadersSyncState × Bool :=
  if state.mDownloadState ≠ .presync then (state, false)
  else
    let nextHeight := state.mCurrentHeight + 1
    if !permittedDifficultyTransition config.mConsensusParams nextHeight
        state.mLastHeaderReceived.nBits current.nBits then (state, false)
    else
      let commits := nextHeight % headerCommitmentPeriod = config.mCommitOffset
      let state := if commits then
          { state with mHeaderCommitments :=
              state.mHeaderCommitments ++ [commitmentBit config current] }
        else state
      if commits ∧ state.mHeaderCommitments.length > config.mMaxCommitments then (state, false)
      else
        ({ state with
            mCurrentChainWork := add256 state.mCurrentChainWork (getBlockProof current.nBits)
            mLastHeaderReceived := current
            mCurrentHeight := nextHeight }, true)

def processHeaders (process : HeadersSyncState → CBlockHeader → HeadersSyncState × Bool) :
    HeadersSyncState → List CBlockHeader → HeadersSyncState × Bool
  | state, [] => (state, true)
  | state, header :: rest =>
    match process state header with
    | (state, true) => processHeaders process state rest
    | (state, false) => (state, false)

def enterRedownload (state : HeadersSyncState) : HeadersSyncState :=
  { state with
    mRedownloadedHeaders := []
    mRedownloadBufferLastHeight := config.mChainStart.nHeight
    mRedownloadBufferFirstPrevHash := config.mChainStart.blockHash
    mRedownloadBufferLastHash := config.mChainStart.blockHash
    mRedownloadChainWork := config.mChainStart.nChainWork
    mDownloadState := .redownload }

def validateAndStoreHeadersCommitments (state : HeadersSyncState) (headers : List CBlockHeader) :
    HeadersSyncState × Bool :=
  match headers with
  | [] => (state, true)
  | first :: _ =>
    if state.mDownloadState ≠ .presync then (state, false)
    else if first.hashPrevBlock ≠ state.mLastHeaderReceived.getHash config.hash256 then
      (state, false)
    else
      match processHeaders (validateAndProcessSingleHeader config) state headers with
      | (state, false) => (state, false)
      | (state, true) =>
        if state.mCurrentChainWork ≥ config.mMinimumRequiredWork then
          (enterRedownload config state, true)
        else (state, true)

/-! ## REDOWNLOAD -/

def previousNBits (state : HeadersSyncState) : UInt32 :=
  match state.mRedownloadedHeaders.getLast? with
  | some last => last.nBits
  | none => config.mChainStart.nBits

def addRedownloadWork (state : HeadersSyncState) (header : CBlockHeader) : HeadersSyncState :=
  let work := add256 state.mRedownloadChainWork (getBlockProof header.nBits)
  { state with
    mRedownloadChainWork := work
    mProcessAllRemainingHeaders :=
      state.mProcessAllRemainingHeaders || decide (work ≥ config.mMinimumRequiredWork) }

def checkCommitment (state : HeadersSyncState) (nextHeight : Nat) (header : CBlockHeader) :
    List Bool × Bool :=
  if !state.mProcessAllRemainingHeaders ∧
      nextHeight % headerCommitmentPeriod = config.mCommitOffset then
    match state.mHeaderCommitments with
    | [] => ([], false)
    | expected :: rest => (rest, decide (commitmentBit config header = expected))
  else (state.mHeaderCommitments, true)

def validateAndStoreRedownloadedHeader (state : HeadersSyncState) (header : CBlockHeader) :
    HeadersSyncState × Bool :=
  let nextHeight := state.mRedownloadBufferLastHeight + 1
  if state.mDownloadState ≠ .redownload then (state, false)
  else if header.hashPrevBlock ≠ state.mRedownloadBufferLastHash then (state, false)
  else if !permittedDifficultyTransition config.mConsensusParams nextHeight
      (previousNBits config state) header.nBits then (state, false)
  else
    let state := addRedownloadWork config state header
    let (commitments, passes) := checkCommitment config state nextHeight header
    let state := { state with mHeaderCommitments := commitments }
    if !passes then (state, false)
    else
      ({ state with
          mRedownloadedHeaders := state.mRedownloadedHeaders ++ [CompressedHeader.ofHeader header]
          mRedownloadBufferLastHeight := nextHeight
          mRedownloadBufferLastHash := header.getHash config.hash256 }, true)

def popReady (processAll : Bool) :
    List CompressedHeader → Uint256 → List CBlockHeader × List CompressedHeader × Uint256
  | [], prevHash => ([], [], prevHash)
  | front :: rest, prevHash =>
    if (front :: rest).length > redownloadBufferSize ∨ processAll then
      let header := front.getFullHeader prevHash
      let (released, kept, nextHash) := popReady processAll rest (header.getHash config.hash256)
      (header :: released, kept, nextHash)
    else ([], front :: rest, prevHash)

def popHeadersReadyForAcceptance (state : HeadersSyncState) :
    HeadersSyncState × List CBlockHeader :=
  if state.mDownloadState ≠ .redownload then (state, [])
  else
    let (released, kept, nextHash) := popReady config state.mProcessAllRemainingHeaders
      state.mRedownloadedHeaders state.mRedownloadBufferFirstPrevHash
    ({ state with
        mRedownloadedHeaders := kept
        mRedownloadBufferFirstPrevHash := nextHash }, released)

/-! ## One message -/

def processPresync (state : HeadersSyncState) (receivedHeaders : List CBlockHeader)
    (fullHeadersMessage : Bool) : HeadersSyncState × ProcessingResult :=
  let (state, success) := validateAndStoreHeadersCommitments config state receivedHeaders
  (state, { success,
            requestMore := success &&
              (fullHeadersMessage || decide (state.mDownloadState = .redownload)) })

def processRedownload (state : HeadersSyncState) (receivedHeaders : List CBlockHeader)
    (fullHeadersMessage : Bool) : HeadersSyncState × ProcessingResult :=
  match processHeaders (validateAndStoreRedownloadedHeader config) state receivedHeaders with
  | (state, false) => (state, {})
  | (state, true) =>
    let (state, released) := popHeadersReadyForAcceptance config state
    (state, { powValidatedHeaders := released
              success := true
              requestMore := !(state.mRedownloadedHeaders.isEmpty &&
                state.mProcessAllRemainingHeaders) && fullHeadersMessage })

def finishMessage (result : HeadersSyncState × ProcessingResult) :
    HeadersSyncState × ProcessingResult :=
  if !(result.2.success && result.2.requestMore) then (result.1.finalize, result.2) else result

def processNextHeaders (state : HeadersSyncState) (receivedHeaders : List CBlockHeader)
    (fullHeadersMessage : Bool) : HeadersSyncState × ProcessingResult :=
  if receivedHeaders.isEmpty then (state, {})
  else
    match state.mDownloadState with
    | .final => (state, {})
    | .presync => finishMessage (processPresync config state receivedHeaders fullHeadersMessage)
    | .redownload =>
      finishMessage (processRedownload config state receivedHeaders fullHeadersMessage)

end HeadersSyncState

end QuantBTC.Net
