/-
# Pool.CreditedDifficulty -- at which difficulty a share is credited

A share is credited at the difficulty that its connection has when it is recorded, while
the work was done for a job that was sent earlier.  `CreditsFixed` compares the two over
the log: the job of every credited share was sent to the connection before, and always at
the difficulty that is credited.
-/
import QuantBTC.Pool.Session

namespace QuantBTC.Pool

set_option autoImplicit false

open Primitives (HashFunctions digitHashes)
open Theory.Maps (AllEntries)
open Theory.Runs (StepsMeet)

/-! ## The log -/

def noticesTo (connection : Nat) : List LogEntry → List (Text × ℚ)
  | [] => []
  | .notified id jobId difficulty :: log =>
    if id = connection then (jobId, difficulty) :: noticesTo connection log
    else noticesTo connection log
  | .credited _ _ _ :: log => noticesTo connection log

def WasSent (connection : Nat) (jobId : Text) (log : List LogEntry) : Prop :=
  jobId ∈ (noticesTo connection log).map Prod.fst

instance (connection : Nat) (jobId : Text) (log : List LogEntry) :
    Decidable (WasSent connection jobId log) :=
  inferInstanceAs (Decidable (_ ∈ _))

def LogEntry.FixedBefore (earlier : List LogEntry) : LogEntry → Prop
  | .notified _ _ _ => True
  | .credited connection share difficulty =>
    WasSent connection share.submission.jobId earlier ∧
    ∀ notice ∈ noticesTo connection earlier, notice.1 = share.submission.jobId →
      notice.2 = difficulty

instance (earlier : List LogEntry) : DecidablePred (LogEntry.FixedBefore earlier)
  | .notified _ _ _ => isTrue trivial
  | .credited _ _ _ => inferInstanceAs (Decidable (_ ∧ _))

inductive CreditsFixed : List LogEntry → Prop
  | nil : CreditsFixed []
  | cons {entry : LogEntry} {earlier : List LogEntry} :
      entry.FixedBefore earlier → CreditsFixed earlier → CreditsFixed (entry :: earlier)

instance decidableCreditsFixed : DecidablePred CreditsFixed
  | [] => isTrue .nil
  | entry :: earlier =>
    have := decidableCreditsFixed earlier
    decidable_of_iff (entry.FixedBefore earlier ∧ CreditsFixed earlier)
      ⟨fun both => .cons both.1 both.2, fun | .cons fixed before => ⟨fixed, before⟩⟩

def SettledFirst (settings : Settings) (server : Server) : Event → Prop
  | .message id (.suggestDifficulty (some value)) _ =>
    noticesTo id server.log = [] ∨ ∀ connection ∈ server.clients.lookup id,
      max value settings.minShareDifficulty = connection.client.difficulty
  | .message id (.submit params) _ => WasSent id (params.getD 1 []) server.log
  | _ => True

instance (settings : Settings) (server : Server) (event : Event) :
    Decidable (SettledFirst settings server event) := by
  unfold SettledFirst
  split <;> infer_instance

/-! ## The invariant -/

structure Connection.Settled (settings : Settings) (notices : List (Text × ℚ))
    (connection : Connection) : Prop where
  agrees : ∀ notice ∈ notices, notice.2 = connection.client.difficulty
  least : settings.minShareDifficulty ≤ connection.client.difficulty
  sent : ∀ share, connection.task = .submitting share →
    share.submission.jobId ∈ notices.map Prod.fst

variable {notices : List (Text × ℚ)} {connection : Connection}

theorem Connection.Settled.setTask {settings : Settings}
    (settled : connection.Settled settings notices) {task : Task}
    (noShare : ∀ share, task ≠ .submitting share) :
    ({ connection with task } : Connection).Settled settings notices :=
  ⟨settled.agrees, settled.least, fun share standing => absurd standing (noShare share)⟩

theorem Connection.Settled.cons {settings : Settings}
    (settled : connection.Settled settings notices) (jobId : Text) :
    connection.Settled settings ((jobId, connection.client.difficulty) :: notices) where
  agrees := List.forall_mem_cons.mpr ⟨rfl, settled.agrees⟩
  least := settled.least
  sent share standing := List.mem_cons_of_mem _ (settled.sent share standing)

structure CreditInv (settings : Settings) (server : Server) : Prop where
  settled : AllEntries (fun id connection =>
    id < server.opened ∧ connection.Settled settings (noticesTo id server.log)) server.clients
  unopened : ∀ id, server.opened ≤ id → noticesTo id server.log = []
  fixed : CreditsFixed server.log

namespace CreditInv

variable {settings : Settings} {server : Server}

theorem start (bootstrapTime : Nat) : CreditInv settings (Server.start bootstrapTime) :=
  ⟨AllEntries.empty, fun _ _ => rfl, .nil⟩

variable {connection : Connection}

theorem insert (inv : CreditInv settings server) {id : Nat} {changed : Connection}
    (found : server.clients.lookup id = some connection)
    (settled : changed.Settled settings (noticesTo id server.log)) :
    CreditInv settings { server with clients := server.clients.insert id changed } :=
  ⟨inv.settled.insert ⟨(inv.settled id connection found).1, settled⟩, inv.unopened, inv.fixed⟩

theorem connect (configured : settings.minShareDifficulty ≤ settings.defaultShareDifficulty)
    (inv : CreditInv settings server) (token : Token 8) :
    CreditInv settings (server.connect settings token) := by
  refine ⟨?_, ?_, inv.fixed⟩
  · apply AllEntries.insert
    · exact inv.settled.mono fun id connection held => ⟨Nat.lt_succ_of_lt held.1, held.2⟩
    · refine ⟨Nat.lt_succ_self _, ?_, configured, fun share standing => by cases standing⟩
      show ∀ notice ∈ noticesTo server.opened server.log, _
      rw [inv.unopened _ (le_refl _)]
      exact fun notice listed => by cases listed
  · intro id above
    exact inv.unopened id (Nat.le_of_succ_le above)

theorem notify (inv : CreditInv settings server) {id : Nat} (jobId : Text)
    (found : server.clients.lookup id = some connection) :
    CreditInv settings (server.notify id connection jobId) := by
  have opened := (inv.settled id connection found).1
  refine ⟨?_, ?_, .cons trivial inv.fixed⟩
  · intro other entry listed
    obtain ⟨openedOther, settled⟩ := inv.settled other entry listed
    refine ⟨openedOther, ?_⟩
    show entry.Settled settings (if id = other then _ else _)
    split
    next same =>
      subst same
      have sameEntry : connection = entry := Option.some.inj (found.symm.trans listed)
      subst sameEntry
      exact settled.cons jobId
    next => exact settled
  · intro other above
    have differs : id ≠ other := by
      have above : server.opened ≤ other := above
      omega
    show (if id = other then _ else _) = _
    rw [if_neg differs]
    exact inv.unopened other above

theorem record (inv : CreditInv settings server) {id : Nat}
    (found : server.clients.lookup id = some connection) {submission : Submission}
    (sent : WasSent id submission.jobId server.log) {accepted : Bool} {job : Option Job}
    (judged : accepted = true → ∃ known, job = some known) :
    CreditInv settings (server.record settings id connection submission accepted job) := by
  obtain ⟨-, settled⟩ := inv.settled id connection found
  have idle : CreditInv settings (server.setTask id connection .idle) :=
    inv.insert found (settled.setTask fun share => @Task.noConfusion _ .idle _)
  -- A credit is no notice, so what was sent to each connection stays as it was.
  have sameNotices : ∀ other, noticesTo other
      (server.record settings id connection submission accepted job).log =
        noticesTo other server.log := by
    intro other
    rcases server.record_spec settings id connection submission judged with
      ⟨log, -⟩ | ⟨known, -, -, -, log, -⟩
    · rw [log]
    · rw [log]
      rfl
  refine ⟨?_, ?_, ?_⟩
  · intro other entry listed
    rw [sameNotices]
    exact idle.settled other entry listed
  · intro other above
    rw [sameNotices]
    exact inv.unopened other above
  · rcases server.record_spec settings id connection submission judged with
      ⟨log, -⟩ | ⟨known, -, -, -, log, -⟩
    · rw [log]
      exact inv.fixed
    · rw [log]
      refine .cons ⟨sent, ?_⟩ inv.fixed
      intro notice listed _
      rw [settled.agrees notice listed, settings.shareDifficulty_of_min_le settled.least]

/-- **Every elementary change keeps the invariant.** -/
theorem keeps (hashes : HashFunctions)
    (configured : settings.minShareDifficulty ≤ settings.defaultShareDifficulty) :
    Keeps hashes settings (SettledFirst settings) (CreditInv settings) where
  connect server token inv _ := inv.connect configured token
  disconnect server id inv := ⟨inv.settled.erase id, inv.unopened, inv.fixed⟩
  updater server broadcast inv := ⟨inv.settled, inv.unopened, inv.fixed⟩
  takeJob server tmpl jobId now job inv _ _ := ⟨inv.settled, inv.unopened, inv.fixed⟩
  setTask server id connection task inv found noShare :=
    inv.insert found ((inv.settled id connection found).2.setTask noShare)
  authorize server id connection params now inv found _ := by
    obtain ⟨-, settled⟩ := inv.settled id connection found
    have greeted : (⟨{ connection.client with
        workerName := some (authorizedName connection.client params)
        authorized := true }, .greeting⟩ : Connection).Settled settings
          (noticesTo id server.log) :=
      ⟨settled.agrees, settled.least, fun share standing => by cases standing⟩
    have changed := inv.insert found greeted
    exact ⟨changed.settled, changed.unopened, changed.fixed⟩
  suggestDifficulty server id connection value now inv found meets := by
    obtain ⟨-, settled⟩ := inv.settled id connection found
    refine inv.insert found ⟨?_, le_max_right _ _, settled.sent⟩
    intro notice listed
    rcases meets with none | same
    · simp [none] at listed
    · rw [settled.agrees notice listed]
      exact (same connection found).symm
  notify server id connection jobId inv found := inv.notify jobId found
  wait server id connection params now job inv found meets _ := by
    obtain ⟨-, settled⟩ := inv.settled id connection found
    refine inv.insert found ⟨settled.agrees, settled.least, ?_⟩
    rintro share ⟨⟩
    exact meets
  record server id connection params now accepted job inv found meets judged := by
    have sent : WasSent id (submissionOf connection.client params).jobId server.log := meets
    refine inv.record found sent fun isAccepted => ?_
    obtain ⟨known, isJob, -⟩ := judged isAccepted
    exact ⟨known, isJob⟩
  recordLater server id connection share inv found standing := by
    have sent := (inv.settled id connection found).2.sent share standing
    exact inv.record found sent fun _ => ⟨share.job, rfl⟩

end CreditInv

/-! ## Runs -/

/-- **Credit is fixed before the work is done**, in every state of a run in which suggestions come
before the jobs and submissions are for jobs that were sent.  The least difficulty must not lie
above the one that connections start with. -/
theorem credit_fixed (hashes : HashFunctions) (settings : Settings)
    (configured : settings.minShareDifficulty ≤ settings.defaultShareDifficulty)
    (bootstrapTime : Nat) (events : List Event)
    (settled : StepsMeet (Server.step hashes settings) (SettledFirst settings)
      (Server.start bootstrapTime) events) :
    ∀ done, done <+: events →
      CreditsFixed (done.foldl (Server.step hashes settings) (Server.start bootstrapTime)).log := by
  intro done isPrefix
  have inv := settled.throughout (CreditInv settings)
    (fun _ _ inv meets => (CreditInv.keeps hashes configured).step inv meets)
    (CreditInv.start bootstrapTime) done isPrefix
  exact inv.fixed

def settledSession : List Event :=
  sessionOpening ++ [.message 0 (.suggestDifficulty (some 0.000001)) 1700000001] ++
    sessionLogin "miner.rig".toList ++
    [sessionSubmit "miner.rig".toList "00000001".toList "0000608e".toList]

theorem credit_fixed_settledSession :
    CreditsFixed
        (settledSession.foldl (Server.step digitHashes shipped) (Server.start 1700000000)).log ∧
      (settledSession.foldl (Server.step digitHashes shipped)
        (Server.start 1700000000)).log.length = 2 := by
  have configured : shipped.minShareDifficulty ≤ shipped.defaultShareDifficulty := by
    decide +kernel
  have settled : StepsMeet (Server.step digitHashes shipped) (SettledFirst shipped)
      (Server.start 1700000000) settledSession := by decide +kernel
  refine ⟨?_, by decide +kernel⟩
  apply credit_fixed digitHashes shipped configured 1700000000 settledSession settled
  exact List.prefix_refl _

def raisedSession : List Event :=
  sessionOpening ++ [.message 0 (.suggestDifficulty (some 0.000001)) 1700000001] ++
    sessionLogin "miner.rig".toList ++
    [.message 0 (.suggestDifficulty (some 0.00003)) 1700000009,
      sessionSubmit "miner.rig".toList "00000001".toList "0000608e".toList]

theorem raised_after_the_hash :
    noticesTo 0
        (raisedSession.foldl (Server.step digitHashes shipped) (Server.start 1700000000)).log =
        [(sessionJobId, 0.000001)] ∧
      (raisedSession.foldl (Server.step digitHashes shipped)
        (Server.start 1700000000)).db.shares.map ShareRow.difficulty = [0.00003] ∧
      ¬CreditsFixed
        (raisedSession.foldl (Server.step digitHashes shipped) (Server.start 1700000000)).log := by
  decide +kernel

end QuantBTC.Pool
