/-
# Pool.Session -- the Stratum server

`PoolServer`: any number of connections, each handled in order, and the template updater
beside them.  A handler runs until it waits: for its writes, for `submitblock`, or between
the sends of a broadcast.  A step is what runs between two such points, so a run is any
interleaving of handlers.  `log` and `tokens` are kept beside the state of the source: the
jobs sent and the shares credited, newest first, and the subscription identifiers drawn so
far.
-/
import QuantBTC.Pool.Job
import QuantBTC.Theory.Runs

namespace QuantBTC.Pool

set_option autoImplicit false

open Primitives Theory.Hex

/-! ## State -/

structure Share where
  token : Token 8
  job : Job
  submission : Submission
deriving DecidableEq

def Share.header (hashes : HashFunctions) (share : Share) : Bytes :=
  (headerBytes hashes share.job share.token.text share.submission.extranonce2
    share.submission.ntime share.submission.nonce).getD []

def Submission.key (submission : Submission) : ShareKey where
  workerName := submission.workerName
  jobId := submission.jobId
  nonce := submission.nonce
  ntime := submission.ntime
  extranonce2 := submission.extranonce2

inductive Broadcast
  /-- Called, and not yet reading the clients and the current job. -/
  | announcing
  | sending (jobId : Text) (remaining : List Nat)
deriving DecidableEq

inductive Task
  /-- In `readline`. -/
  | idle
  /-- In `mining.authorize`, before the current job is sent. -/
  | greeting
  | broadcasting (broadcast : Broadcast)
  /-- In `mining.submit`, waiting for `submitblock`. -/
  | submitting (share : Share)
deriving DecidableEq

structure Connection where
  client : PoolClient
  task : Task := .idle
deriving DecidableEq

inductive LogEntry
  | notified (connection : Nat) (jobId : Text) (difficulty : ℚ)
  | credited (connection : Nat) (share : Share) (difficulty : ℚ)
deriving DecidableEq

def creditedShares : List LogEntry → List Share
  | [] => []
  | .notified _ _ _ :: log => creditedShares log
  | .credited _ share _ :: log => share :: creditedShares log

structure Server where
  clients : AList (fun _ : Nat => Connection) := ∅
  opened : Nat := 0
  currentJob : Job
  jobHistory : AList (fun _ : Text => Job)
  updater : Option Broadcast := none
  db : PoolDB := {}
  log : List LogEntry := []
  tokens : List (Token 8) := []

def Server.creditedHeaders (hashes : HashFunctions) (server : Server) : List Bytes :=
  (creditedShares server.log).map (Share.header hashes)

def Server.start (bootstrapTime : Nat) : Server where
  currentJob := bootstrapJob bootstrapTime
  jobHistory := AList.singleton "bootstrap".toList (bootstrapJob bootstrapTime)

inductive Message
  | subscribe
  | authorize (params : List Text)
  | submit (params : List Text)
  | suggestDifficulty (value : Option ℚ)
  | other
deriving DecidableEq

inductive Event
  | connect (token : Token 8)
  | message (connection : Nat) (message : Message) (now : Int)
  | resume (connection : Nat)
  | disconnect (connection : Nat)
  | template (tmpl : Template) (jobId : Text) (now : Int)
  | resumeUpdater
deriving DecidableEq

/-! ## Elementary changes -/

def authorizedName (client : PoolClient) (params : List Text) : Text :=
  params.headD ("anonymous.".toList ++ client.subscriptionId.text)

def submissionOf (client : PoolClient) (params : List Text) : Submission where
  workerName := params.headD ((client.workerName.getD []).orElse "unknown".toList)
  jobId := params.getD 1 []
  extranonce2 := params.getD 2 []
  ntime := params.getD 3 []
  nonce := params.getD 4 []

namespace Server

variable (hashes : HashFunctions) (settings : Settings) (server : Server)

def connect (token : Token 8) : Server :=
  { server with
    clients := server.clients.insert server.opened
      { client := { subscriptionId := token, difficulty := settings.defaultShareDifficulty } }
    opened := server.opened + 1
    tokens := token :: server.tokens }

def setTask (id : Nat) (connection : Connection) (task : Task) : Server :=
  { server with clients := server.clients.insert id { connection with task } }

def authorize (id : Nat) (connection : Connection) (params : List Text) : Server :=
  let workerName := authorizedName connection.client params
  { server with
    clients := server.clients.insert id
      { client := { connection.client with workerName := some workerName, authorized := true }
        task := .greeting }
    db := server.db.authorizeWorker workerName }

def suggestDifficulty (id : Nat) (connection : Connection) (value : ℚ) : Server :=
  { server with
    clients := server.clients.insert id
      { connection with
        client := { connection.client with difficulty := max value settings.minShareDifficulty } } }

def notify (id : Nat) (connection : Connection) (jobId : Text) : Server :=
  { server with log := .notified id jobId connection.client.difficulty :: server.log }

def record (id : Nat) (connection : Connection) (submission : Submission) (accepted : Bool)
    (job : Option Job) : Server :=
  let recorded := server.db.recordShare settings submission.key accepted connection.client.difficulty
  { server.setTask id connection .idle with
    db := recorded.2
    log := (if recorded.1.1 then job.toList.map fun job =>
      .credited id ⟨connection.client.subscriptionId, job, submission⟩
        (settings.shareDifficulty connection.client.difficulty)
      else []) ++ server.log }

def jobRetentionSec : Int := max (settings.maxJobAgeSec * 3) 300

def keptJobs (jobs : AList fun _ : Text => Job) (cutoff : Int) : AList fun _ : Text => Job where
  entries := jobs.entries.filter fun entry => cutoff ≤ entry.2.createdAt
  nodupKeys := List.NodupKeys.sublist List.filter_sublist jobs.nodupKeys

def takeJob (job : Job) (now : Int) : Server :=
  { server with
    currentJob := job
    jobHistory := keptJobs (server.jobHistory.insert job.jobId job)
      (now - jobRetentionSec settings)
    updater := if job.prevhash ≠ server.currentJob.prevhash ∨ job.ntime ≠ server.currentJob.ntime
      then some .announcing else none }

/-! ## Steps -/

def submit (id : Nat) (connection : Connection) (params : List Text) (now : Int) : Server :=
  let client := connection.client
  let submission := submissionOf client params
  let verdict := validateShareSubmission hashes settings server.jobHistory client submission now
  match verdict.job with
  | some job =>
    if verdict.accepted ∧ verdict.reason = .blockCandidate ∧
        (buildBlockHex hashes job client.subscriptionId.text submission.extranonce2
          submission.ntime submission.nonce).isSome then
      server.setTask id connection (.submitting ⟨client.subscriptionId, job, submission⟩)
    else server.record settings id connection submission verdict.accepted job
  | none => server.record settings id connection submission verdict.accepted none

def handleMessage (id : Nat) (connection : Connection) (now : Int) : Message → Server
  | .subscribe => server.setTask id connection (.broadcasting .announcing)
  | .authorize params => server.authorize id connection params
  | .submit params => server.submit hashes settings id connection params now
  | .suggestDifficulty (some value) => server.suggestDifficulty settings id connection value
  | .suggestDifficulty none => server
  | .other => server

def sendTo (id : Nat) (jobId : Text) : Server :=
  match server.clients.lookup id with
  | some connection =>
    if connection.client.authorized then server.notify id connection jobId else server
  | none => server

def advance : Broadcast → Server × Option Broadcast
  | .announcing => (server, some (.sending server.currentJob.jobId server.clients.keys))
  | .sending _ [] => (server, none)
  | .sending jobId (id :: remaining) => (server.sendTo id jobId, some (.sending jobId remaining))

def resume (id : Nat) (connection : Connection) : Server :=
  match connection.task with
  | .idle => server
  | .greeting => (server.notify id connection server.currentJob.jobId).setTask id connection .idle
  | .broadcasting broadcast =>
    (server.advance broadcast).1.setTask id connection
      ((server.advance broadcast).2.elim .idle .broadcasting)
  | .submitting share => server.record settings id connection share.submission true share.job

def step (server : Server) : Event → Server
  | .connect token => server.connect settings token
  | .message id message now =>
    match server.clients.lookup id with
    | some connection =>
      if connection.task = .idle then
        server.handleMessage hashes settings id connection now message
      else server
    | none => server
  | .resume id =>
    match server.clients.lookup id with
    | some connection => server.resume settings id connection
    | none => server
  | .disconnect id =>
    match server.clients.lookup id with
    | some connection =>
      -- A handler ends when it reads or writes; while it waits for the node it does neither.
      match connection.task with
      | .submitting _ => server
      | _ => { server with clients := server.clients.erase id }
    | none => server
  | .template tmpl jobId now =>
    match server.updater, nextJob settings tmpl now jobId with
    | none, some job => server.takeJob settings job now
    | _, _ => server
  | .resumeUpdater =>
    match server.updater with
    | some broadcast =>
      { (server.advance broadcast).1 with updater := (server.advance broadcast).2 }
    | none => server

theorem record_spec (settings : Settings) (server : Server) (id : Nat) (connection : Connection)
    (submission : Submission) {accepted : Bool} {job : Option Job}
    (judged : accepted = true → ∃ known, job = some known) :
    let after := server.record settings id connection submission accepted job
    (after.log = server.log ∧ after.db.acceptedKeys = server.db.acceptedKeys) ∨
    ∃ known, job = some known ∧ accepted = true ∧ submission.key ∉ server.db.keys ∧
      after.log = .credited id ⟨connection.client.subscriptionId, known, submission⟩
        (settings.shareDifficulty connection.client.difficulty) :: server.log ∧
      after.db.acceptedKeys = submission.key :: server.db.acceptedKeys := by
  unfold record
  dsimp only
  rcases server.db.recordShare_spec settings submission.key accepted
    connection.client.difficulty with ⟨_, answer, shares, _⟩ | ⟨free, answer, shares, _⟩
  · rw [answer, if_neg Bool.false_ne_true, PoolDB.acceptedKeys, shares]
    exact .inl ⟨rfl, rfl⟩
  · rw [answer, PoolDB.acceptedKeys, shares]
    cases accepted with
    | false => exact .inl ⟨rfl, rfl⟩
    | true =>
      obtain ⟨known, rfl⟩ := judged rfl
      exact .inr ⟨known, rfl, rfl, free, rfl, rfl⟩

theorem lookup_keptJobs {jobs : AList fun _ : Text => Job} {cutoff : Int} {jobId : Text}
    {job : Job} (kept : (keptJobs jobs cutoff).lookup jobId = some job) :
    jobs.lookup jobId = some job := by
  have listed : (⟨jobId, job⟩ : (_ : Text) × Job) ∈ (keptJobs jobs cutoff).entries :=
    Theory.Maps.mem_entries_of_lookup kept
  exact Theory.Maps.lookup_of_mem_entries (List.mem_of_mem_filter listed)

end Server

/-! ## What every step keeps -/

structure Judged (hashes : HashFunctions) (settings : Settings) (server : Server)
    (client : PoolClient) (submission : Submission) (job : Job) : Prop where
  worker : client.workerName = some submission.workerName
  known : server.jobHistory.lookup submission.jobId = some job
  passed : ∃ reason, Passed hashes settings client job submission reason

theorem judged_of_accepted {hashes : HashFunctions} {settings : Settings} {server : Server}
    {client : PoolClient} {submission : Submission} {now : Int}
    (accepted : (validateShareSubmission hashes settings server.jobHistory client submission
      now).accepted = true) :
    ∃ job, (validateShareSubmission hashes settings server.jobHistory client submission now).job =
      some job ∧ Judged hashes settings server client submission job := by
  obtain ⟨worker, job, known, answered, passed⟩ := validateShareSubmission_accepted accepted
  exact ⟨job, answered, worker, known, _, passed⟩

structure Keeps (hashes : HashFunctions) (settings : Settings) (Meets : Server → Event → Prop)
    (P : Server → Prop) : Prop where
  connect : ∀ server token, P server → Meets server (.connect token) →
    P (server.connect settings token)
  disconnect : ∀ server id, P server → P { server with clients := server.clients.erase id }
  updater : ∀ server broadcast, P server → P { server with updater := broadcast }
  takeJob : ∀ server tmpl jobId now job, P server → Meets server (.template tmpl jobId now) →
    nextJob settings tmpl now jobId = some job → P (server.takeJob settings job now)
  setTask : ∀ server id connection task, P server → server.clients.lookup id = some connection →
    (∀ share, task ≠ .submitting share) → P (server.setTask id connection task)
  authorize : ∀ server id connection params now, P server →
    server.clients.lookup id = some connection →
    Meets server (.message id (.authorize params) now) → P (server.authorize id connection params)
  suggestDifficulty : ∀ server id connection value now, P server →
    server.clients.lookup id = some connection →
    Meets server (.message id (.suggestDifficulty (some value)) now) →
    P (server.suggestDifficulty settings id connection value)
  notify : ∀ server id connection jobId, P server → server.clients.lookup id = some connection →
    P (server.notify id connection jobId)
  wait : ∀ server id connection params now job, P server →
    server.clients.lookup id = some connection → Meets server (.message id (.submit params) now) →
    Judged hashes settings server connection.client (submissionOf connection.client params) job →
    P (server.setTask id connection (.submitting
      ⟨connection.client.subscriptionId, job, submissionOf connection.client params⟩))
  record : ∀ server id connection params now accepted job, P server →
    server.clients.lookup id = some connection → Meets server (.message id (.submit params) now) →
    (accepted = true → ∃ judged, job = some judged ∧
      Judged hashes settings server connection.client (submissionOf connection.client params)
        judged) →
    P (server.record settings id connection (submissionOf connection.client params) accepted job)
  recordLater : ∀ server id connection share, P server →
    server.clients.lookup id = some connection → connection.task = .submitting share →
    P (server.record settings id connection share.submission true share.job)

namespace Keeps

variable {hashes : HashFunctions} {settings : Settings} {Meets : Server → Event → Prop}
  {P : Server → Prop} (keeps : Keeps hashes settings Meets P) {server : Server}

include keeps

variable {connection : Connection}

theorem submit {id : Nat} {params : List Text} {now : Int} (holds : P server)
    (found : server.clients.lookup id = some connection)
    (meets : Meets server (.message id (.submit params) now)) :
    P (server.submit hashes settings id connection params now) := by
  unfold Server.submit
  dsimp only
  cases answered : (validateShareSubmission hashes settings server.jobHistory connection.client
      (submissionOf connection.client params) now).job with
  | none =>
    refine keeps.record _ _ _ _ _ _ _ holds found meets fun accepted => ?_
    obtain ⟨job, known, judged⟩ := judged_of_accepted accepted
    simp [answered] at known
  | some job =>
    dsimp only
    split
    next waits =>
      obtain ⟨job', known, judged⟩ := judged_of_accepted waits.1
      rw [answered] at known
      cases known
      exact keeps.wait _ _ _ _ _ _ holds found meets judged
    next =>
      refine keeps.record _ _ _ _ _ _ _ holds found meets fun accepted => ?_
      obtain ⟨job', known, judged⟩ := judged_of_accepted accepted
      rw [answered] at known
      cases known
      exact ⟨job, rfl, judged⟩

theorem handleMessage {id : Nat} {message : Message} {now : Int} (holds : P server)
    (found : server.clients.lookup id = some connection)
    (meets : Meets server (.message id message now)) :
    P (server.handleMessage hashes settings id connection now message) := by
  cases message with
  | subscribe => exact keeps.setTask _ _ _ _ holds found fun share => Task.noConfusion
  | authorize params => exact keeps.authorize _ _ _ _ _ holds found meets
  | submit params => exact keeps.submit holds found meets
  | suggestDifficulty value =>
    cases value with
    | none => exact holds
    | some value => exact keeps.suggestDifficulty _ _ _ _ _ holds found meets
  | other => exact holds

theorem advance (holds : P server) (broadcast : Broadcast) :
    P (server.advance broadcast).1 ∧ (server.advance broadcast).1.clients = server.clients := by
  match broadcast with
  | .announcing => exact ⟨holds, rfl⟩
  | .sending _ [] => exact ⟨holds, rfl⟩
  | .sending jobId (id :: remaining) =>
    show P (server.sendTo id jobId) ∧ (server.sendTo id jobId).clients = server.clients
    unfold Server.sendTo
    split
    next connection found =>
      split
      next => exact ⟨keeps.notify _ _ _ _ holds found, rfl⟩
      next => exact ⟨holds, rfl⟩
    next => exact ⟨holds, rfl⟩

theorem resume {id : Nat} (holds : P server) (found : server.clients.lookup id = some connection) :
    P (server.resume settings id connection) := by
  unfold Server.resume
  split
  next => exact holds
  next =>
    refine keeps.setTask _ _ _ _ (keeps.notify _ _ _ _ holds found) found fun share => ?_
    exact Task.noConfusion
  next broadcast _ =>
    obtain ⟨sent, same⟩ := keeps.advance holds broadcast
    refine keeps.setTask _ _ _ _ sent (by rw [same, found]) fun share => ?_
    cases (server.advance broadcast).2 with
    | none => exact Task.noConfusion
    | some broadcast => exact Task.noConfusion
  next share standing => exact keeps.recordLater _ _ _ _ holds found standing

/-- **A step is made of elementary changes.** -/
theorem step {event : Event} (holds : P server) (meets : Meets server event) :
    P (server.step hashes settings event) := by
  cases event with
  | connect token => exact keeps.connect _ _ holds meets
  | message id message now =>
    show P (match server.clients.lookup id with | some connection => _ | none => _)
    split
    next connection found =>
      split
      next => exact keeps.handleMessage holds found meets
      next => exact holds
    next => exact holds
  | resume id =>
    show P (match server.clients.lookup id with | some connection => _ | none => _)
    split
    next connection found => exact keeps.resume holds found
    next => exact holds
  | disconnect id =>
    show P (match server.clients.lookup id with | some connection => _ | none => _)
    split
    next =>
      split
      next => exact holds
      next => exact keeps.disconnect _ _ holds
    next => exact holds
  | template tmpl jobId now =>
    show P (match server.updater, nextJob settings tmpl now jobId with
      | none, some job => _ | _, _ => _)
    split
    next job _ built => exact keeps.takeJob _ _ _ _ _ holds meets built
    next => exact holds
  | resumeUpdater =>
    show P (match server.updater with | some broadcast => _ | none => _)
    split
    next broadcast _ => exact keeps.updater _ _ (keeps.advance holds broadcast).1
    next => exact holds

end Keeps

def LogsAccepted (server : Server) : Prop :=
  (creditedShares server.log).map (fun share => share.submission.key) = server.db.acceptedKeys

theorem LogsAccepted.record {settings : Settings} {server : Server} (logged : LogsAccepted server)
    (id : Nat) (connection : Connection) (submission : Submission) {accepted : Bool}
    {job : Option Job} (judged : accepted = true → ∃ known, job = some known) :
    LogsAccepted (server.record settings id connection submission accepted job) := by
  unfold LogsAccepted
  rcases server.record_spec settings id connection submission judged with
    ⟨log, keys⟩ | ⟨known, -, -, -, log, keys⟩
  · rwa [log, keys]
  · rw [log, keys, creditedShares, List.map_cons, logged]

theorem LogsAccepted.keeps (hashes : HashFunctions) (settings : Settings)
    (Meets : Server → Event → Prop) : Keeps hashes settings Meets LogsAccepted where
  connect _ _ logged _ := logged
  disconnect _ _ logged := logged
  updater _ _ logged := logged
  takeJob _ _ _ _ _ logged _ _ := logged
  setTask _ _ _ _ logged _ _ := logged
  authorize _ _ _ _ _ logged _ _ := logged
  suggestDifficulty _ _ _ _ _ logged _ _ := logged
  notify _ _ _ _ logged _ := logged
  wait _ _ _ _ _ _ logged _ _ _ := logged
  record _ id connection params _ _ _ logged _ _ judged := by
    refine logged.record id connection (submissionOf connection.client params) fun accepted => ?_
    obtain ⟨known, isJob, -⟩ := judged accepted
    exact ⟨known, isJob⟩
  recordLater _ id connection share logged _ _ :=
    logged.record id connection share.submission fun _ => ⟨share.job, rfl⟩

def sessionTemplate : Template where
  previousblockhash := some (toHex (List.replicate 32 0xab))
  curtime := some 1700000000
  height := some 150
  version := some 0x30000000
  bits := some "1d00ffff".toList
  defaultWitnessCommitment := none
  coinbasevalue := some 5000000000
  transactions := []

def sessionJobId : Text := "4f1d0c2a9b33".toList

theorem length_sessionToken : [1, 2, 3, 4, 5, 6, 7, (8 : UInt8)].length = 8 := rfl

def sessionOpening : List Event :=
  [.template sessionTemplate sessionJobId 1700000000,
    .connect ⟨[1, 2, 3, 4, 5, 6, 7, 8], length_sessionToken⟩]

def sessionLogin (workerName : Text) : List Event :=
  [.message 0 (.authorize [workerName]) 1700000005, .resume 0]

def sessionSubmit (workerName extranonce2 nonce : Text) : Event :=
  .message 0 (.submit [workerName, sessionJobId, extranonce2, "0af15365".toList, nonce]) 1700000010

end QuantBTC.Pool
