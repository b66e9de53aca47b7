/-
# Pool.Replay -- how often one piece of work is credited

The unique index over the shares compares texts: the worker, the job, and the three fields
as they were sent.  What is hashed depends on less.  The header of a share is determined by
the connection's identifier, by what its job gives to headers, and by the bytes that the
fields spell, and it determines them (`Share.Sound.repeats`), up to collisions of the hash.
So one header has several keys: under another name, under another job that gives the same,
in other letters.
-/
import QuantBTC.Pool.Session

namespace QuantBTC.Pool

set_option autoImplicit false

open Primitives Theory.Hex
open Theory.Maps (AllEntries lookup_insert_cases)
open Theory.Runs (StepsMeet gathered)

/-! ## What a header determines -/

structure Work where
  prevhashRaw : Text
  version : Text
  nbits : Text
  coinb1 : Text
  coinb2 : Text
deriving DecidableEq

def Job.work (job : Job) : Work where
  prevhashRaw := job.prevhashRaw
  version := job.version
  nbits := job.nbits
  coinb1 := job.coinb1
  coinb2 := job.coinb2

inductive Job.Made (settings : Settings) (job : Job) : Prop
  | bootstrap (bootstrapTime : Nat) (isBootstrap : job = bootstrapJob bootstrapTime)
  | template {tmpl : Template} {txs : List CTransaction} {values : CoinbaseValues}
      {versionLe : Bytes} (answer : tmpl.IsAnswer txs)
      (holds : job.Holds settings tmpl values versionLe)

theorem bootstrapJob_plain (bootstrapTime : Nat) :
    (bootstrapJob bootstrapTime).Plain [0x20, 0, 0, 0] (List.replicate 32 0)
      [0xff, 0xff, 0, 0x1d] where
  merkleBranches := rfl
  version := ⟨show "20000000".toList = _ by decide, rfl⟩
  prevhashRaw := ⟨show List.replicate 64 '0' = _ by decide, rfl⟩
  nbits_lower := show "1d00ffff".toList.length = 8 ∧ "1d00ffff".toList.all isLower = true by decide
  nbits := ⟨0x1d00ffff, show number "1d00ffff".toList = _ by decide, by decide, by decide⟩

theorem Job.Made.plain {settings : Settings} {job : Job} (made : job.Made settings) :
    ∃ version prevhash nbits, job.Plain version prevhash nbits := by
  cases made with
  | bootstrap bootstrapTime isBootstrap =>
    subst isBootstrap
    exact ⟨_, _, _, bootstrapJob_plain bootstrapTime⟩
  | template answer holds => exact ⟨_, holds.plain answer⟩

theorem Job.Made.coinbase {settings : Settings} {job : Job} (made : job.Made settings)
    (token : Token 8) {extranonce2 : Text} {bytes : Bytes} (read : fromHex extranonce2 = some bytes)
    (short : bytes.length ≤ 32) :
    ∃ coinbase, coinbaseOf job token.text extranonce2 = some coinbase ∧
      ((job.coinb1 = [] ∧ job.coinb2 = [] ∧ nonWitness coinbase = token.bytes ++ bytes) ∨
      ∃ values : CoinbaseValues, values.WellFormed ∧
        fromHex settings.poolMiningScript = some values.scriptPubkey ∧
        job.coinb1 = toHex (coinb1Bytes values.heightPush 12) ∧
        job.coinb2 =
          toHex (coinb2Bytes values.coinbaseValue values.scriptPubkey values.witnessScript) ∧
        nonWitness coinbase = values.strippedCoinbase (token.bytes ++ bytes)) := by
  cases made with
  | bootstrap bootstrapTime isBootstrap =>
    subst isBootstrap
    refine ⟨token.bytes ++ bytes, ?_, .inl ⟨rfl, rfl, nonWitness_short ?_⟩⟩
    · show fromHex ([] ++ token.text ++ extranonce2 ++ []) = _
      rw [List.nil_append, List.append_nil]
      exact fromHex_append_eq_some (fromHex_toHex token.bytes) read
    · rw [List.length_append, token.length_bytes]
      omega
  | template answer holds =>
    exact ⟨_, holds.coinbaseOf_eq token read, .inr ⟨_, holds.wellFormed answer, holds.script,
      holds.coinb1, holds.coinb2, CoinbaseValues.nonWitness_coinbase _⟩⟩

theorem Token.ext_append {token other : Token 8} {rest rest' : Bytes}
    (same : token.bytes ++ rest = other.bytes ++ rest') : token = other ∧ rest = rest' := by
  obtain ⟨heads, tails⟩ :=
    List.append_inj same (token.length_bytes.trans other.length_bytes.symm)
  cases token
  cases other
  cases heads
  exact ⟨rfl, tails⟩

theorem CoinbaseValues.WellFormed.ne_strippedCoinbase {values : CoinbaseValues}
    (wellFormed : values.WellFormed) {string extranonce : Bytes} (short : string.length ≤ 40) :
    string ≠ values.strippedCoinbase extranonce := by
  rintro rfl
  rw [CoinbaseValues.length_strippedCoinbase wellFormed] at short
  omega

theorem Job.Made.coinbase_injective {settings : Settings} {one two : Job}
    (made : one.Made settings) (made' : two.Made settings) {token token' : Token 8}
    {extranonce2 extranonce2' : Text} {bytes bytes' coinbase coinbase' : Bytes}
    (read : fromHex extranonce2 = some bytes) (read' : fromHex extranonce2' = some bytes')
    (short : bytes.length ≤ 32) (short' : bytes'.length ≤ 32)
    (assembled : coinbaseOf one token.text extranonce2 = some coinbase)
    (assembled' : coinbaseOf two token'.text extranonce2' = some coinbase')
    (same : nonWitness coinbase = nonWitness coinbase') :
    one.coinb1 = two.coinb1 ∧ one.coinb2 = two.coinb2 ∧ token = token' ∧ bytes = bytes' := by
  obtain ⟨_, assembledOne, one⟩ := made.coinbase token read short
  obtain ⟨_, assembledTwo, two⟩ := made'.coinbase token' read' short'
  cases assembled.symm.trans assembledOne
  cases assembled'.symm.trans assembledTwo
  have alone (token : Token 8) {bytes : Bytes} (short : bytes.length ≤ 32) :
      (token.bytes ++ bytes).length ≤ 40 := by
    rw [List.length_append, token.length_bytes]
    omega
  rcases one with ⟨first, second, stripped⟩ | ⟨values, wellFormed, script, first, second, stripped⟩
  · rcases two with ⟨first', second', stripped'⟩ | ⟨values', wellFormed', _, _, _, stripped'⟩
    · grind [Token.ext_append]
    · rw [stripped, stripped'] at same
      exact absurd same (wellFormed'.ne_strippedCoinbase (alone token short))
  · rcases two with ⟨_, _, stripped'⟩ | ⟨values', wellFormed', script', first', second', stripped'⟩
    · rw [stripped, stripped'] at same
      exact absurd same.symm (wellFormed.ne_strippedCoinbase (alone token' short'))
    · grind [Option.some.inj, CoinbaseValues.strippedCoinbase_injective, Token.ext_append]

theorem ShareFields.bytes_injective {hashes : HashFunctions} {one two : ShareFields}
    (same : one.bytes hashes = two.bytes hashes) :
    one.version = two.version ∧ one.prevhash = two.prevhash ∧
      computeTxid hashes one.coinbase = computeTxid hashes two.coinbase ∧ one.time = two.time ∧
      one.nbits = two.nbits ∧ one.nonce = two.nonce := by
  unfold ShareFields.bytes at same
  obtain ⟨version, same⟩ :=
    List.append_inj same (one.version_length.trans two.version_length.symm)
  obtain ⟨prevhash, same⟩ := List.append_inj same (by
    rw [List.length_reverse, List.length_reverse, one.prevhash_length, two.prevhash_length])
  obtain ⟨root, same⟩ := List.append_inj same (by
    rw [computeTxid, computeTxid, length_sha256d, length_sha256d])
  obtain ⟨time, same⟩ := List.append_inj same (one.time_length.trans two.time_length.symm)
  obtain ⟨nbits, same⟩ := List.append_inj same (one.nbits_length.trans two.nbits_length.symm)
  exact ⟨version, List.reverse_injective prevhash, root, time, nbits, List.append_cancel_left same⟩

theorem computeTxid_injOn {hashes : HashFunctions} {strings : List Bytes}
    (noCollision : Set.InjOn hashes.hash256 {string | string ∈ strings}) {one two : Bytes}
    (listed : nonWitness one ∈ strings) (listed' : nonWitness two ∈ strings)
    (same : computeTxid hashes one = computeTxid hashes two) : nonWitness one = nonWitness two := by
  apply noCollision listed listed'
  exact uint256Bytes_injective same

theorem Job.Plain.work_eq {one two : Job} {version prevhash nbits : Bytes}
    (plain : one.Plain version prevhash nbits) (plain' : two.Plain version prevhash nbits)
    (coinb1 : one.coinb1 = two.coinb1) (coinb2 : one.coinb2 = two.coinb2) :
    one.work = two.work := by
  obtain ⟨bits, isBits, packed, small⟩ := plain.nbits
  obtain ⟨bits', isBits', packed', small'⟩ := plain'.nbits
  have sameBits : bits = bits' := by grind [ofLeBytes_leBytes]
  subst sameBits
  have nbitsTexts : one.nbits = two.nbits :=
    number_injective plain.nbits_lower.2 plain'.nbits_lower.2
      (plain.nbits_lower.1.trans plain'.nbits_lower.1.symm) isBits isBits'
  unfold Job.work
  rw [plain.prevhashRaw.1, plain'.prevhashRaw.1, plain.version.1, plain'.version.1, nbitsTexts,
    coinb1, coinb2]

def Submission.Lower (submission : Submission) : Prop :=
  submission.extranonce2.all isLower = true ∧ submission.ntime.all isLower = true ∧
    submission.nonce.all isLower = true

instance (submission : Submission) : Decidable submission.Lower :=
  inferInstanceAs (Decidable (_ ∧ _))

structure Share.Sound (settings : Settings) (strings : List Bytes) (share : Share) : Prop where
  made : share.job.Made settings
  nonce : isHexString share.submission.nonce 8 8 = true
  ntime : isHexString share.submission.ntime 8 8 = true
  extranonce2 : share.submission.extranonce2 = [] ∨
    isHexString share.submission.extranonce2 2 64 = true
  lower : share.submission.Lower
  hashed : ∀ coinbase ∈ coinbaseOf share.job share.token.text share.submission.extranonce2,
    nonWitness coinbase ∈ strings

def Share.Repeats (share other : Share) : Prop :=
  share.token = other.token ∧ share.job.work = other.job.work ∧
    share.submission.extranonce2 = other.submission.extranonce2 ∧
    share.submission.ntime = other.submission.ntime ∧
    share.submission.nonce = other.submission.nonce

instance (share other : Share) : Decidable (share.Repeats other) :=
  inferInstanceAs (Decidable (_ ∧ _))

namespace Share.Sound

variable {hashes : HashFunctions} {settings : Settings} {strings : List Bytes} {share other : Share}

theorem bytes (sound : share.Sound settings strings) :
    ∃ bytes, fromHex share.submission.extranonce2 = some bytes ∧ bytes.length ≤ 32 := by
  rcases sound.extranonce2 with empty | hex
  · rw [empty]
    exact ⟨[], rfl, by decide⟩
  · grind [isHexString_bytes]

theorem repeats (noCollision : Set.InjOn hashes.hash256 {string | string ∈ strings})
    (sound : share.Sound settings strings) (sound' : other.Sound settings strings)
    (same : share.header hashes = other.header hashes) : share.Repeats other := by
  obtain ⟨bytes, read, short⟩ := sound.bytes
  obtain ⟨bytes', read', short'⟩ := sound'.bytes
  obtain ⟨coinbase, assembled, -⟩ := sound.made.coinbase share.token read short
  obtain ⟨coinbase', assembled', -⟩ := sound'.made.coinbase other.token read' short'
  obtain ⟨version, prevhash, nbits, plain⟩ := sound.made.plain
  obtain ⟨version', prevhash', nbits', plain'⟩ := sound'.made.plain
  obtain ⟨fields, rfl, rfl, rfl, rfl, time, nonce, header⟩ :=
    plain.shareFields hashes assembled sound.ntime sound.nonce
  obtain ⟨fields', rfl, rfl, rfl, rfl, time', nonce', header'⟩ :=
    plain'.shareFields hashes assembled' sound'.ntime sound'.nonce
  rw [Share.header, Share.header, header, header', Option.getD_some, Option.getD_some] at same
  obtain ⟨versions, prevhashes, roots, times, nbits, nonces⟩ := ShareFields.bytes_injective same
  have strings := computeTxid_injOn noCollision (sound.hashed _ assembled)
    (sound'.hashed _ assembled') roots
  obtain ⟨coinb1, coinb2, tokens, rfl⟩ := sound.made.coinbase_injective sound'.made read read'
    short short' assembled assembled' strings
  rw [← versions, ← prevhashes, ← nbits] at plain'
  -- Lower-case texts are the digits of the bytes that they spell.
  have spelled {one two : Text} {bytes : Bytes} (lower : one.all isLower = true)
      (lower' : two.all isLower = true) (read : fromHex one = some bytes)
      (read' : fromHex two = some bytes) : one = two :=
    (toHex_of_lower lower read).symm.trans (toHex_of_lower lower' read')
  refine ⟨tokens, plain.work_eq plain' coinb1 coinb2, ?_, ?_, ?_⟩
  · exact spelled sound.lower.1 sound'.lower.1 read read'
  · exact spelled sound.lower.2.1 sound'.lower.2.1 time (times ▸ time')
  · exact spelled sound.lower.2.2 sound'.lower.2.2 nonce (nonces ▸ nonce')

end Share.Sound

/-! ## The condition -/

def UnderOneKey (server : Server) : Event → Prop
  | .connect token => token ∉ server.tokens
  | .message id (.submit params) _ =>
    ∀ connection ∈ server.clients.lookup id,
      ∀ job ∈ server.jobHistory.lookup (params.getD 1 []),
        (submissionOf connection.client params).Lower ∧
        ∀ credit ∈ creditedShares server.log,
          credit.Repeats ⟨connection.client.subscriptionId, job,
            submissionOf connection.client params⟩ →
          credit.submission.workerName = (submissionOf connection.client params).workerName ∧
            credit.submission.jobId = params.getD 1 []
  | _ => True

instance (server : Server) : (event : Event) → Decidable (UnderOneKey server event)
  | .connect token => inferInstanceAs (Decidable (token ∉ server.tokens))
  | .message id (.submit params) now => by
    unfold UnderOneKey
    infer_instance
  | .message _ .subscribe _ | .message _ (.authorize _) _ | .message _ (.suggestDifficulty _) _
  | .message _ .other _ | .resume _ | .disconnect _ | .template _ _ _ | .resumeUpdater =>
    inferInstanceAs (Decidable True)

def Server.coinbaseStrings (server : Server) : Event → List Bytes
  | .message id (.submit params) _ =>
    match server.clients.lookup id, server.jobHistory.lookup (params.getD 1 []) with
    | some connection, some job =>
      ((coinbaseOf job connection.client.subscriptionId.text (params.getD 2 [])).map
        nonWitness).toList
    | _, _ => []
  | _ => []

def Event.Answered : Event → Prop
  | .template tmpl _ _ => ∃ txs, tmpl.IsAnswer txs
  | _ => True

structure Fair (strings : List Bytes) (server : Server) (event : Event) : Prop where
  key : UnderOneKey server event
  hashed : ∀ string ∈ server.coinbaseStrings event, string ∈ strings
  answered : event.Answered

/-! ## The invariant -/

structure Share.Fresh (settings : Settings) (strings : List Bytes) (credits : List Share)
    (share : Share) : Prop where
  sound : share.Sound settings strings
  sameKey : ∀ credit ∈ credits, credit.Repeats share →
    credit.submission.key = share.submission.key

theorem Fair.fresh {hashes : HashFunctions} {settings : Settings} {strings : List Bytes}
    {server : Server} {id : Nat} {connection : Connection} {params : List Text} {now : Int}
    {job : Job} (fair : Fair strings server (.message id (.submit params) now))
    (found : server.clients.lookup id = some connection)
    (jobs : AllEntries (fun _ job => job.Made settings) server.jobHistory)
    (judged : Judged hashes settings server connection.client
      (submissionOf connection.client params) job) :
    (⟨connection.client.subscriptionId, job, submissionOf connection.client params⟩ : Share).Fresh
      settings strings (creditedShares server.log) := by
  have known : server.jobHistory.lookup (params.getD 1 []) = some job := judged.known
  obtain ⟨lower, sameKey⟩ := fair.key connection found job known
  obtain ⟨reason, passed⟩ := judged.passed
  refine ⟨⟨jobs _ _ known, passed.nonce, passed.ntime, passed.extranonce2, lower, ?_⟩, ?_⟩
  · intro coinbase assembled
    have assembled : coinbaseOf job connection.client.subscriptionId.text (params.getD 2 []) =
        some coinbase := assembled
    apply fair.hashed
    show _ ∈ (match server.clients.lookup id, server.jobHistory.lookup (params.getD 1 []) with
      | some connection, some job => _ | _, _ => _)
    grind
  · intro credit listed repeated
    obtain ⟨workers, jobIds⟩ := sameKey credit listed repeated
    obtain ⟨-, -, extranonces, times, nonces⟩ := repeated
    unfold Submission.key
    rw [workers, jobIds, extranonces, times, nonces]
    rfl

structure Connection.Ready (settings : Settings) (strings : List Bytes) (tokens : List (Token 8))
    (credits : List Share) (connection : Connection) : Prop where
  drawn : connection.client.subscriptionId ∈ tokens
  waiting : ∀ share, connection.task = .submitting share →
    share.token = connection.client.subscriptionId ∧ share.Fresh settings strings credits

structure ReplayInv (hashes : HashFunctions) (settings : Settings) (strings : List Bytes)
    (server : Server) : Prop where
  jobs : AllEntries (fun _ job => job.Made settings) server.jobHistory
  ready : AllEntries (fun _ connection => connection.Ready settings strings server.tokens
    (creditedShares server.log)) server.clients
  distinct : ∀ id id' connection other, server.clients.lookup id = some connection →
    server.clients.lookup id' = some other →
    connection.client.subscriptionId = other.client.subscriptionId → id = id'
  sound : ∀ credit ∈ creditedShares server.log, credit.Sound settings strings
  logged : LogsAccepted server
  once : (server.creditedHeaders hashes).Nodup

namespace ReplayInv

variable {hashes : HashFunctions} {settings : Settings} {strings : List Bytes} {server : Server}

theorem start (bootstrapTime : Nat) :
    ReplayInv hashes settings strings (Server.start bootstrapTime) where
  jobs jobId job found := by
    have listed := Theory.Maps.mem_entries_of_lookup found
    cases List.mem_singleton.mp listed
    exact .bootstrap bootstrapTime rfl
  ready := AllEntries.empty
  distinct id _ connection _ found := by
    have found : (∅ : AList fun _ : Nat => Connection).lookup id = some connection := found
    simp at found
  sound credit listed := by cases listed
  logged := rfl
  once := List.nodup_nil

theorem insert (inv : ReplayInv hashes settings strings server) {id : Nat}
    {connection changed : Connection} (found : server.clients.lookup id = some connection)
    (sameToken : changed.client.subscriptionId = connection.client.subscriptionId)
    (waiting : ∀ share, changed.task = .submitting share →
      share.token = connection.client.subscriptionId ∧
        share.Fresh settings strings (creditedShares server.log)) :
    ReplayInv hashes settings strings
      { server with clients := server.clients.insert id changed } where
  jobs := inv.jobs
  ready := by
    apply inv.ready.insert
    refine ⟨?_, ?_⟩
    · rw [sameToken]
      exact (inv.ready id connection found).drawn
    · rwa [sameToken]
  distinct one two oneConnection twoConnection foundOne foundTwo same := by
    -- A connection of the changed map has the identifier of one in the map as it was.
    have before {key : Nat} {entry : Connection}
        (listed : (server.clients.insert id changed).lookup key = some entry) :
        ∃ old, server.clients.lookup key = some old ∧
          old.client.subscriptionId = entry.client.subscriptionId := by grind [lookup_insert_cases]
    obtain ⟨oldOne, listedOne, tokenOne⟩ := before foundOne
    obtain ⟨oldTwo, listedTwo, tokenTwo⟩ := before foundTwo
    exact inv.distinct one two oldOne oldTwo listedOne listedTwo
      (tokenOne.trans (same.trans tokenTwo.symm))
  sound := inv.sound
  logged := inv.logged
  once := inv.once

theorem connect (inv : ReplayInv hashes settings strings server) {token : Token 8}
    (new : token ∉ server.tokens) :
    ReplayInv hashes settings strings (server.connect settings token) where
  jobs := inv.jobs
  ready := by
    apply AllEntries.insert
    · intro id connection found
      have ready := inv.ready id connection found
      exact ⟨List.mem_cons_of_mem _ ready.drawn, ready.waiting⟩
    · exact ⟨List.mem_cons_self, fun share standing => by cases standing⟩
  distinct one two oneConnection twoConnection foundOne foundTwo same := by
    have drawn {id : Nat} {connection : Connection}
        (found : server.clients.lookup id = some connection) :
        connection.client.subscriptionId ≠ token := by
      rintro rfl
      exact new (inv.ready id connection found).drawn
    rcases lookup_insert_cases foundOne with ⟨rfl, rfl⟩ | ⟨-, foundOne⟩
    · rcases lookup_insert_cases foundTwo with ⟨rfl, rfl⟩ | ⟨-, foundTwo⟩
      · rfl
      · exact absurd same.symm (drawn foundTwo)
    · rcases lookup_insert_cases foundTwo with ⟨rfl, rfl⟩ | ⟨-, foundTwo⟩
      · exact absurd same (drawn foundOne)
      · exact inv.distinct one two _ _ foundOne foundTwo same
  sound := inv.sound
  logged := inv.logged
  once := inv.once

theorem disconnect (inv : ReplayInv hashes settings strings server) (id : Nat) :
    ReplayInv hashes settings strings { server with clients := server.clients.erase id } where
  jobs := inv.jobs
  ready := inv.ready.erase id
  distinct one two oneConnection twoConnection foundOne foundTwo same := by
    have listedOne := (Theory.Maps.lookup_of_lookup_erase foundOne).2
    have listedTwo := (Theory.Maps.lookup_of_lookup_erase foundTwo).2
    exact inv.distinct one two _ _ listedOne listedTwo same
  sound := inv.sound
  logged := inv.logged
  once := inv.once

theorem takeJob (inv : ReplayInv hashes settings strings server) {tmpl : Template}
    {txs : List CTransaction} (answer : tmpl.IsAnswer txs) {jobId : Text} {now : Int} {job : Job}
    (built : nextJob settings tmpl now jobId = some job) :
    ReplayInv hashes settings strings (server.takeJob settings job now) := by
  obtain ⟨values, versionLe, holds, -⟩ := nextJob_eq_some built
  refine ⟨?_, inv.ready, inv.distinct, inv.sound, inv.logged, inv.once⟩
  intro key kept found
  exact inv.jobs.insert (.template answer holds) key kept (Server.lookup_keptJobs found)

theorem header_new (noCollision : Set.InjOn hashes.hash256 {string | string ∈ strings})
    (inv : ReplayInv hashes settings strings server) {share : Share}
    (fresh : share.Fresh settings strings (creditedShares server.log))
    (free : share.submission.key ∉ server.db.keys) :
    share.header hashes ∉ server.creditedHeaders hashes := by
  intro again
  obtain ⟨credit, listed, same⟩ := List.mem_map.mp again
  have repeated := (inv.sound credit listed).repeats noCollision fresh.sound same
  have accepted : credit.submission.key ∈ server.db.acceptedKeys := by
    rw [← inv.logged]
    exact List.mem_map_of_mem listed
  rw [fresh.sameKey credit listed repeated] at accepted
  apply free
  exact List.map_subset _ (List.filter_subset_self _) accepted

theorem ready_credit (inv : ReplayInv hashes settings strings server) {id : Nat}
    {connection : Connection} (found : server.clients.lookup id = some connection)
    (idle : connection.task = .idle) {share : Share}
    (owner : share.token = connection.client.subscriptionId) :
    AllEntries (fun _ entry => entry.Ready settings strings server.tokens
      (share :: creditedShares server.log)) server.clients := by
  intro key entry listed
  have ready := inv.ready key entry listed
  refine ⟨ready.drawn, fun waiting standing => ?_⟩
  obtain ⟨owned, fresh⟩ := ready.waiting waiting standing
  refine ⟨owned, fresh.sound, List.forall_mem_cons.mpr ⟨?_, fresh.sameKey⟩⟩
  intro repeated
  have tokens := owner.symm.trans (repeated.1.trans owned)
  have same := inv.distinct id key connection entry found listed tokens
  subst same
  cases found.symm.trans listed
  simp [idle] at standing

theorem record (noCollision : Set.InjOn hashes.hash256 {string | string ∈ strings})
    (inv : ReplayInv hashes settings strings server) {id : Nat} {connection : Connection}
    (found : server.clients.lookup id = some connection) {submission : Submission}
    {accepted : Bool} {job : Option Job}
    (fresh : accepted = true → ∃ known, job = some known ∧
      (⟨connection.client.subscriptionId, known, submission⟩ : Share).Fresh settings strings
        (creditedShares server.log)) :
    ReplayInv hashes settings strings
      (server.record settings id connection submission accepted job) := by
  have judged (isAccepted : accepted = true) : ∃ known, job = some known := by
    obtain ⟨known, isJob, -⟩ := fresh isAccepted
    exact ⟨known, isJob⟩
  have idle : ReplayInv hashes settings strings (server.setTask id connection .idle) :=
    inv.insert found rfl fun share => @Task.noConfusion _ .idle _
  have logged : LogsAccepted (server.record settings id connection submission accepted job) :=
    inv.logged.record id connection submission judged
  rcases server.record_spec settings id connection submission judged with
    ⟨log, -⟩ | ⟨known, isJob, isAccepted, free, log, -⟩
  · refine ⟨idle.jobs, ?_, idle.distinct, ?_, logged, ?_⟩
    · rw [log]
      exact idle.ready
    · rw [log]
      exact inv.sound
    · rw [Server.creditedHeaders, log]
      exact inv.once
  · obtain ⟨_, isJob', fresh⟩ := fresh isAccepted
    cases isJob.symm.trans isJob'
    refine ⟨idle.jobs, ?_, idle.distinct, ?_, logged, ?_⟩
    · rw [log]
      exact idle.ready_credit (AList.lookup_insert _) rfl rfl
    · rw [log]
      exact List.forall_mem_cons.mpr ⟨fresh.sound, inv.sound⟩
    · rw [Server.creditedHeaders, log]
      exact List.nodup_cons.mpr ⟨inv.header_new noCollision fresh free, inv.once⟩

/-- **Every elementary change keeps the invariant.** -/
theorem keeps (noCollision : Set.InjOn hashes.hash256 {string | string ∈ strings}) :
    Keeps hashes settings (Fair strings) (ReplayInv hashes settings strings) where
  connect server token inv fair := inv.connect fair.key
  disconnect server id inv := inv.disconnect id
  updater server broadcast inv :=
    ⟨inv.jobs, inv.ready, inv.distinct, inv.sound, inv.logged, inv.once⟩
  takeJob server tmpl jobId now job inv fair built := by
    obtain ⟨txs, answer⟩ := fair.answered
    exact inv.takeJob answer built
  setTask server id connection task inv found noShare :=
    inv.insert found rfl fun share standing => absurd standing (noShare share)
  authorize server id connection params now inv found _ := by
    have changed := @ReplayInv.insert hashes settings strings server inv id connection
      ⟨{ connection.client with
          workerName := some (authorizedName connection.client params)
          authorized := true }, .greeting⟩ found rfl fun share standing => by cases standing
    exact ⟨changed.jobs, changed.ready, changed.distinct, changed.sound, changed.logged,
      changed.once⟩
  suggestDifficulty server id connection value now inv found _ :=
    inv.insert found rfl (inv.ready id connection found).waiting
  notify server id connection jobId inv found :=
    ⟨inv.jobs, inv.ready, inv.distinct, inv.sound, inv.logged, inv.once⟩
  wait server id connection params now job inv found fair judged := by
    refine inv.insert found rfl ?_
    rintro share ⟨⟩
    exact ⟨rfl, fair.fresh found inv.jobs judged⟩
  record server id connection params now accepted job inv found fair judged := by
    refine inv.record noCollision found fun isAccepted => ?_
    obtain ⟨known, isJob, judged⟩ := judged isAccepted
    exact ⟨known, isJob, fair.fresh found inv.jobs judged⟩
  recordLater server id connection share inv found standing := by
    obtain ⟨owner, fresh⟩ := (inv.ready id connection found).waiting share standing
    refine inv.record noCollision found fun _ => ⟨share.job, rfl, ?_⟩
    rwa [← owner]

end ReplayInv

/-! ## Runs -/

/-- **No header is credited twice**, in any state of a run in which work is handed in under one key,
templates are answers of the node, and the coinbases do not collide. -/
theorem credited_once (hashes : HashFunctions) (settings : Settings) (bootstrapTime : Nat)
    (events : List Event) (answers : ∀ event ∈ events, event.Answered)
    (noCollision : Set.InjOn hashes.hash256 {string | string ∈
      gathered (Server.step hashes settings) Server.coinbaseStrings (Server.start bootstrapTime)
        events})
    (oneKey : StepsMeet (Server.step hashes settings) UnderOneKey (Server.start bootstrapTime)
      events) :
    ∀ done, done <+: events →
      ((done.foldl (Server.step hashes settings) (Server.start bootstrapTime)).creditedHeaders
        hashes).Nodup := by
  intro done isPrefix
  have fair := (oneKey.and (Theory.Runs.stepsMeet_gathered Server.coinbaseStrings fun _ => id)).and
    (Theory.Runs.stepsMeet_of_forall answers)
  have inv := fair.throughout (ReplayInv hashes settings _)
    (fun _ _ inv meets =>
      (ReplayInv.keeps noCollision).step inv ⟨meets.1.1, meets.1.2, meets.2⟩)
    (ReplayInv.start bootstrapTime) done isPrefix
  exact inv.once

def onceSession : List Event :=
  sessionOpening ++ sessionLogin "miner.rig".toList ++
    [sessionSubmit "miner.rig".toList "000000ce".toList "000025d9".toList,
      sessionSubmit "miner.rig".toList "000000ce".toList "000025d9".toList]

theorem credited_once_onceSession :
    ((onceSession.foldl (Server.step digitHashes shipped)
        (Server.start 1700000000)).creditedHeaders digitHashes).Nodup ∧
      ((onceSession.foldl (Server.step digitHashes shipped)
        (Server.start 1700000000)).creditedHeaders digitHashes).length = 1 := by
  have answer : sessionTemplate.IsAnswer [] :=
    ⟨⟨List.replicate 32 0xab, rfl, rfl⟩, ⟨"1d00ffff".toList, rfl, by decide, by decide⟩,
      ⟨[0x6a, 0x24, 0xaa, 0x21, 0xa9, 0xed] ++ List.replicate 32 0xee, rfl, by decide⟩, rfl⟩
  have answers : ∀ event ∈ onceSession, event.Answered := by
    refine List.forall_mem_cons.mpr ⟨⟨[], answer⟩, ?_⟩
    simp [sessionLogin, sessionSubmit, Event.Answered]
  have noCollision : Set.InjOn digitHashes.hash256 {string | string ∈
      gathered (Server.step digitHashes shipped) Server.coinbaseStrings (Server.start 1700000000)
        onceSession} := by
    have all : ∀ one ∈ gathered (Server.step digitHashes shipped) Server.coinbaseStrings
          (Server.start 1700000000) onceSession,
        ∀ two ∈ gathered (Server.step digitHashes shipped) Server.coinbaseStrings
          (Server.start 1700000000) onceSession,
        digitHashes.hash256 one = digitHashes.hash256 two → one = two := by decide +kernel
    exact fun one listed two listed' same => all one listed two listed' same
  have oneKey : StepsMeet (Server.step digitHashes shipped) UnderOneKey (Server.start 1700000000)
      onceSession := by decide +kernel
  refine ⟨?_, by decide +kernel⟩
  exact credited_once digitHashes shipped 1700000000 onceSession answers noCollision oneKey
    onceSession (List.prefix_refl _)

def renamedSession : List Event :=
  sessionOpening ++ sessionLogin "miner.rig".toList ++
    [sessionSubmit "miner.rig".toList "000000ce".toList "000025d9".toList] ++
    sessionLogin "miner.other".toList ++
    [sessionSubmit "miner.other".toList "000000ce".toList "000025d9".toList]

def respelledSession : List Event :=
  sessionOpening ++ sessionLogin "miner.rig".toList ++
    [sessionSubmit "miner.rig".toList "000000ce".toList "000025d9".toList,
      sessionSubmit "miner.rig".toList "000000CE".toList "000025d9".toList]

def reissuedSession : List Event :=
  sessionOpening ++ sessionLogin "miner.rig".toList ++
    [.resumeUpdater, .resumeUpdater, .resumeUpdater,
      sessionSubmit "miner.rig".toList "000000ce".toList "000025d9".toList,
      .template sessionTemplate "82aa01f3c4d7".toList 1700000012,
      .message 0 (.submit ["miner.rig".toList, "82aa01f3c4d7".toList, "000000ce".toList,
        "0af15365".toList, "000025d9".toList]) 1700000013]

theorem credited_twice :
    ¬((renamedSession.foldl (Server.step digitHashes shipped)
        (Server.start 1700000000)).creditedHeaders digitHashes).Nodup ∧
      ¬((respelledSession.foldl (Server.step digitHashes shipped)
        (Server.start 1700000000)).creditedHeaders digitHashes).Nodup ∧
      ¬((reissuedSession.foldl (Server.step digitHashes shipped)
        (Server.start 1700000000)).creditedHeaders digitHashes).Nodup := by
  decide +kernel

end QuantBTC.Pool
