/-
# Net.Redownload -- what the redownload phase gives back

The buffer of the REDOWNLOAD phase keeps compressed headers and rebuilds each
`hashPrevBlock` from the header released before it.  `Sync` follows a whole download:
the state, the headers of the batches accepted in REDOWNLOAD and the headers released.
-/
import QuantBTC.Net.HeadersSync
import QuantBTC.Theory.HashChain

namespace QuantBTC.Net

set_option autoImplicit false

open Primitives Theory.HashChain HeadersSyncState

/-! ## Headers through the buffer -/

def relinkHeader (prevHash : Uint256) (header : CBlockHeader) : CBlockHeader :=
  (CompressedHeader.ofHeader header).getFullHeader prevHash

def Plain (header : CBlockHeader) : Prop :=
  header.hashParentsRoot = 0 ∧ header.hashParents = []

theorem relinkHeader_eq_self_iff (header : CBlockHeader) :
    relinkHeader header.hashPrevBlock header = header ↔ Plain header := by
  cases header
  simp [relinkHeader, CompressedHeader.ofHeader, CompressedHeader.getFullHeader, Plain, eq_comm]

section

variable (config : SyncConfig)

def Chained (start : Uint256) (headers : List CBlockHeader) : Prop :=
  Linked (·.getHash config.hash256) CBlockHeader.hashPrevBlock start headers

def lastHash (start : Uint256) (headers : List CBlockHeader) : Uint256 :=
  lastKey (·.getHash config.hash256) start headers

def rebuildHeaders (start : Uint256) (headers : List CBlockHeader) : List CBlockHeader :=
  rebuild (·.getHash config.hash256) relinkHeader start headers

theorem popReady_map (processAll : Bool) (headers : List CBlockHeader) (prevHash : Uint256) :
    ∃ popped kept, headers = popped ++ kept ∧
      popReady config processAll (headers.map CompressedHeader.ofHeader) prevHash
        = (rebuildHeaders config prevHash popped, kept.map CompressedHeader.ofHeader,
            lastHash config prevHash (rebuildHeaders config prevHash popped)) := by
  induction headers generalizing prevHash with
  | nil => exact ⟨[], [], rfl, rfl⟩
  | cons header rest ih =>
    simp only [List.map_cons, popReady]
    split
    · obtain ⟨popped, kept, split, pops⟩ :=
        ih ((relinkHeader prevHash header).getHash config.hash256)
      refine ⟨header :: popped, kept, by rw [split]; rfl, ?_⟩
      rw [← relinkHeader, pops]
      rfl
    · exact ⟨[], header :: rest, rfl, rfl⟩

/-! ## One header, one batch -/

structure Stored (state state' : HeadersSyncState) (headers : List CBlockHeader) : Prop where
  chained : Chained config state.mRedownloadBufferLastHash headers
  buffer : state'.mRedownloadedHeaders
    = state.mRedownloadedHeaders ++ headers.map CompressedHeader.ofHeader
  last : state'.mRedownloadBufferLastHash
    = lastHash config state.mRedownloadBufferLastHash headers
  first : state'.mRedownloadBufferFirstPrevHash = state.mRedownloadBufferFirstPrevHash
  phase : state'.mDownloadState = state.mDownloadState

variable {state : HeadersSyncState}

theorem stored_of_header {state' : HeadersSyncState} {header : CBlockHeader}
    (accepted : validateAndStoreRedownloadedHeader config state header = (state', true)) :
    Stored config state state' [header] := by
  simp only [validateAndStoreRedownloadedHeader] at accepted
  split at accepted <;> [cases accepted; skip]
  split at accepted <;> [cases accepted; skip]
  next connects =>
  split at accepted <;> [cases accepted; skip]
  split at accepted <;> [cases accepted; skip]
  obtain ⟨rfl, -⟩ := Prod.mk.inj accepted
  exact ⟨⟨not_ne_iff.mp connects, trivial⟩, rfl, rfl, rfl, rfl⟩

theorem Stored.trans {first second third : HeadersSyncState} {header : CBlockHeader}
    {rest : List CBlockHeader} (one : Stored config first second [header])
    (more : Stored config second third rest) : Stored config first third (header :: rest) where
  chained := by
    have rest_chained := more.chained
    rw [one.last] at rest_chained
    exact ⟨one.chained.1, rest_chained⟩
  buffer := by rw [more.buffer, one.buffer]; simp
  last := by rw [more.last, one.last]; rfl
  first := more.first.trans one.first
  phase := more.phase.trans one.phase

theorem stored_of_batch {state' : HeadersSyncState} {headers : List CBlockHeader} (accepted :
      processHeaders (validateAndStoreRedownloadedHeader config) state headers = (state', true)) :
    Stored config state state' headers := by
  induction headers generalizing state with
  | nil =>
    obtain ⟨rfl, -⟩ := Prod.mk.inj accepted
    exact ⟨trivial, by simp, rfl, rfl, rfl⟩
  | cons header rest ih =>
    rw [processHeaders] at accepted
    split at accepted <;> [skip; cases accepted]
    next middle stored => exact (stored_of_header config stored).trans config (ih accepted)

theorem presync_of_single (presync : state.mDownloadState = .presync) (current : CBlockHeader) :
    (validateAndProcessSingleHeader config state current).1.mDownloadState = .presync := by
  simp only [validateAndProcessSingleHeader]
  split_ifs <;> exact presync

theorem presync_of_batch (presync : state.mDownloadState = .presync) (headers : List CBlockHeader) :
    (processHeaders (validateAndProcessSingleHeader config) state headers).1.mDownloadState
      = .presync := by
  induction headers generalizing state with
  | nil => exact presync
  | cons header rest ih => grind [presync_of_single, processHeaders]

/-! ## Whole downloads -/

structure Sync where
  state : HeadersSyncState
  received : List CBlockHeader := []
  released : List CBlockHeader := []
deriving DecidableEq

structure Message where
  headers : List CBlockHeader
  full : Bool

def Sync.next (sync : Sync) (message : Message) : Sync :=
  let (state, ret) := processNextHeaders config sync.state message.headers message.full
  { state
    received := if sync.state.mDownloadState = .redownload ∧ ret.success then
        sync.received ++ message.headers
      else sync.received
    released := sync.released ++ ret.powValidatedHeaders }

def Sync.run (messages : List Message) : Sync :=
  messages.foldl (Sync.next config) { state := HeadersSyncState.init config }

structure Split (sync : Sync) (done pending : List CBlockHeader) : Prop where
  received : sync.received = done ++ pending
  released : sync.released = rebuildHeaders config config.mChainStart.blockHash done
  chained : Chained config config.mChainStart.blockHash sync.received
  presync : sync.state.mDownloadState = .presync → sync.received = []
  buffer : sync.state.mDownloadState = .redownload →
    sync.state.mRedownloadedHeaders = pending.map CompressedHeader.ofHeader
  last : sync.state.mDownloadState = .redownload →
    sync.state.mRedownloadBufferLastHash
      = lastHash config config.mChainStart.blockHash sync.received
  first : sync.state.mDownloadState = .redownload →
    sync.state.mRedownloadBufferFirstPrevHash
      = lastHash config config.mChainStart.blockHash sync.released

def Good (sync : Sync) : Prop := ∃ done pending, Split config sync done pending

theorem good_init : Good config { state := HeadersSyncState.init config } :=
  ⟨[], [], rfl, rfl, trivial, fun _ => rfl, nofun, nofun, nofun⟩

variable {sync : Sync}

theorem Good.finalize (good : Good config sync) (state : HeadersSyncState) :
    Good config { sync with state := state.finalize } := by
  obtain ⟨done, pending, split⟩ := good
  exact ⟨done, pending, split.received, split.released, split.chained, nofun, nofun, nofun, nofun⟩

theorem presync_or_enters (presync : state.mDownloadState = .presync) (headers : List CBlockHeader)
    :
    (validateAndStoreHeadersCommitments config state headers).1.mDownloadState = .presync ∨
      ∃ before, (validateAndStoreHeadersCommitments config state headers).1
        = enterRedownload config before := by
  unfold validateAndStoreHeadersCommitments
  split
  · exact Or.inl presync
  next first rest =>
    have batch := presync_of_batch config presync (first :: rest)
    split_ifs
    · exact Or.inl presync
    · exact Or.inl presync
    · grind

theorem Good.presyncStep (good : Good config sync) (presync : sync.state.mDownloadState = .presync)
    (headers : List CBlockHeader) (full : Bool) :
    Good config { sync with state := (processPresync config sync.state headers full).1 } := by
  obtain ⟨done, pending, split⟩ := good
  have nothing : sync.received = [] := split.presync presync
  obtain ⟨rfl, rfl⟩ := List.append_eq_nil_iff.mp (split.received.symm.trans nothing)
  have state : (processPresync config sync.state headers full).1
      = (validateAndStoreHeadersCommitments config sync.state headers).1 := rfl
  rw [state]
  rcases presync_or_enters config presync headers with stays | ⟨before, enters⟩
  · have never (phase : (validateAndStoreHeadersCommitments config sync.state headers).1.mDownloadState
        = .redownload) : False := by
      simp [stays] at phase
    exact ⟨[], [], split.received, split.released, split.chained, fun _ => nothing,
      fun phase => (never phase).elim, fun phase => (never phase).elim,
      fun phase => (never phase).elim⟩
  · rw [enters, nothing, split.released]
    exact ⟨[], [], rfl, rfl, trivial, fun _ => rfl, fun _ => rfl, fun _ => rfl, fun _ => rfl⟩

theorem Good.redownloadStep (good : Good config sync)
    (phase : sync.state.mDownloadState = .redownload) {headers : List CBlockHeader}
    {middle : HeadersSyncState} (accepted : processHeaders (validateAndStoreRedownloadedHeader
      config) sync.state headers = (middle, true)) :
    Good config
      { state := (popHeadersReadyForAcceptance config middle).1
        received := sync.received ++ headers
        released := sync.released ++ (popHeadersReadyForAcceptance config middle).2 } := by
  obtain ⟨done, pending, split⟩ := good
  have stored := stored_of_batch config accepted
  have middlePhase : middle.mDownloadState = .redownload := stored.phase.trans phase
  have buffer : middle.mRedownloadedHeaders
      = (pending ++ headers).map CompressedHeader.ofHeader := by
    rw [stored.buffer, split.buffer phase, List.map_append]
  obtain ⟨popped, kept, parts, pops⟩ := popReady_map config middle.mProcessAllRemainingHeaders
    (pending ++ headers) (lastHash config config.mChainStart.blockHash sync.released)
  rw [popHeadersReadyForAcceptance, if_neg (not_ne_iff.mpr middlePhase), buffer, stored.first,
    split.first phase, pops]
  refine ⟨done ++ popped, kept, ?_, ?_, ?_, ?_, fun _ => rfl, fun _ => ?_, fun _ => ?_⟩
  · rw [split.received, List.append_assoc, parts, List.append_assoc]
  · simp only [rebuildHeaders, rebuild_append, split.released, lastHash]
  · refine (linked_append _ _ _ _ _).mpr ⟨split.chained, ?_⟩
    have chained := stored.chained
    rwa [split.last phase] at chained
  · intro presync
    simp [middlePhase] at presync
  · simp only [stored.last, split.last phase, lastHash, lastKey_append]
  · simp only [lastHash, lastKey_append]

theorem Good.finish {result : HeadersSyncState × ProcessingResult}
    {received released : List CBlockHeader}
    (good : Good config { state := result.1, received, released }) :
    Good config { state := (finishMessage result).1, received, released } := by
  unfold finishMessage
  split
  · exact good.finalize config result.1
  · exact good

theorem finishMessage_snd (result : HeadersSyncState × ProcessingResult) :
    (finishMessage result).2 = result.2 := by
  unfold finishMessage
  split <;> rfl

theorem Good.next (good : Good config sync) (message : Message) :
    Good config (sync.next config message) := by
  simp only [Sync.next, processNextHeaders]
  split
  · simpa using good
  · split
    · simpa using good
    next presync =>
      have step := good.presyncStep config presync message.headers message.full
      simpa [presync, finishMessage_snd, processPresync] using step.finish config
    next redownload =>
      simp only [finishMessage_snd, redownload, true_and]
      unfold processRedownload
      split
      next middle failed =>
        -- the batch is refused: whatever it buffered is dropped with the object
        simpa [finishMessage] using good.finalize config middle
      next middle accepted =>
        simpa using (good.redownloadStep config redownload accepted).finish config

theorem good_run (messages : List Message) : Good config (Sync.run config messages) := by
  refine List.foldlRecOn messages _ (good_init config) ?_
  intro sync good message _
  exact good.next config message

/-! ## Faithfulness -/

def Faithful (sync : Sync) : Prop :=
  sync.released <+: sync.received ∧
    Chained config config.mChainStart.blockHash sync.released

theorem Good.faithful_iff (good : Good config sync) :
    Faithful config sync ↔
      ∀ header ∈ sync.received.take sync.released.length, Plain header := by
  obtain ⟨done, pending, split⟩ := good
  have chained : Chained config config.mChainStart.blockHash sync.released := by
    rw [split.released]
    exact linked_rebuild _ _ _ (fun _ _ => rfl) _ _
  have doneChained : Chained config config.mChainStart.blockHash done := by
    have received := split.chained
    rw [split.received] at received
    exact ((linked_append _ _ _ _ _).mp received).1
  have firstReceived : sync.received.take sync.released.length = done := by
    rw [split.released, rebuildHeaders, length_rebuild, split.received, List.take_left']
    rfl
  rw [Faithful, and_iff_left chained, List.prefix_iff_eq_take, firstReceived, split.released,
    rebuildHeaders, rebuild_eq_self_iff _ _ _ doneChained]
  simp only [relinkHeader_eq_self_iff]

/-- **A run whose redownloaded headers carry no DAG fields releases them unchanged; and
the released headers are the received ones only as far as those had none.** -/
theorem redownload_faithful (messages : List Message) :
    ((∀ header ∈ (Sync.run config messages).received, Plain header) →
      Faithful config (Sync.run config messages)) ∧
    (Faithful config (Sync.run config messages) ↔
      ∀ header ∈ (Sync.run config messages).received.take
        (Sync.run config messages).released.length, Plain header) := by
  have exact_iff := (good_run config messages).faithful_iff config
  grind

end

/-! ## A DAG header through the buffer -/

def regtestSync : SyncConfig where
  mConsensusParams := Consensus.regTestParams
  mCommitOffset := 0
  mChainStart :=
    { nHeight := 0, nBits := 0x207fffff, nChainWork := 2
      blockHash := CBlockHeader.getHash digitHash { nVersion := 1, nBits := 0x207fffff }
      header := { nVersion := 1, nBits := 0x207fffff } }
  mMinimumRequiredWork := 4
  mMaxCommitments := 100
  hash256 := digitHash
  mHasher := Fin.val

def headerWithParents (parents : List Uint256) : CBlockHeader where
  nVersion := blockVersionDagmode
  hashPrevBlock := regtestSync.mChainStart.blockHash
  nBits := 0x207fffff
  hashParentsRoot := CBlockHeader.computeParentsRoot digitHash parents
  hashParents := parents

def servedTwice (header : CBlockHeader) : List Message :=
  [⟨[header], true⟩, ⟨[header], true⟩]

theorem redownload_faithful_without_parents :
    (Sync.run regtestSync (servedTwice (headerWithParents []))).released
        = [headerWithParents []] ∧
      Faithful regtestSync (Sync.run regtestSync (servedTwice (headerWithParents []))) :=
  ⟨by decide +kernel, (redownload_faithful regtestSync (servedTwice (headerWithParents []))).1 (by
    have received : (Sync.run regtestSync (servedTwice (headerWithParents []))).received
        = [headerWithParents []] := by decide +kernel
    rw [received]
    simp [Plain, headerWithParents, CBlockHeader.computeParentsRoot])⟩

/-- A DAG header with an extra parent comes out without it. -/
theorem redownload_drops_parents :
    (Sync.run regtestSync (servedTwice (headerWithParents [5]))).received
        = [headerWithParents [5]] ∧
      (Sync.run regtestSync (servedTwice (headerWithParents [5]))).released.length = 1 ∧
      ¬ (Sync.run regtestSync (servedTwice (headerWithParents [5]))).released
          <+: (Sync.run regtestSync (servedTwice (headerWithParents [5]))).received := by
  decide +kernel

end QuantBTC.Net
