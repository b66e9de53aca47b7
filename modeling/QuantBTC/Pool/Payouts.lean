/-
# Pool.Payouts -- the payout loop against the chain

`payout_loop` reads the balances that have matured, asks the node to send each of them
and marks it paid after the node has answered.  Between the three, shares are recorded,
the call may fail, and the service may be restarted; the database stays, the loop starts
again.  `accountOf` reads a worker's books off such a state: every step is an operation of
the two-step account on it, or leaves it alone.
-/
import QuantBTC.Pool.Database
import QuantBTC.Theory.Runs

namespace QuantBTC.Pool

set_option autoImplicit false

open Theory (Account tally)
open Theory.Decimal (IsDecimal roundTo)
open Theory.Runs (StepsMeet)

/-! ## The loop -/

structure Payment where
  workerName : Text
  address : Text
  amount : ℚ
deriving DecidableEq, Repr

inductive PayoutLoop
  /-- In `asyncio.sleep`. -/
  | sleeping
  /-- In the loop over the rows that are left. -/
  | paying (rest : List Payout)
  /-- Waiting for `sendtoaddress`. -/
  | calling (payout : Payout) (rest : List Payout)
  /-- The call has returned and `mark_paid` comes next. -/
  | returned (payout : Payout) (rest : List Payout)
deriving DecidableEq, Repr

inductive RpcOutcome
  | success
  | error
  /-- The call raises, after the node has sent the payment. -/
  | timeoutAfterBroadcast
deriving DecidableEq, Repr

structure PayoutState where
  db : PoolDB := {}
  loop : PayoutLoop := .sleeping
  chain : List Payment := []

inductive PayoutEvent
  | authorizeWorker (workerName : Text)
  | recordShare (key : ShareKey) (accepted : Bool) (difficulty : ℚ)
  | wake
  | next
  | rpc (outcome : RpcOutcome)
  | markPaid
  | restart
deriving DecidableEq, Repr

def Payout.amount (payout : Payout) : ℚ := roundTo 8 payout.pendingBalance

def Payout.payment (payout : Payout) : Payment :=
  { workerName := payout.workerName, address := payout.payoutAddress, amount := payout.amount }

def PayoutLoop.queue : PayoutLoop → List Payout
  | .sleeping => []
  | .paying rest => rest
  | .calling payout rest => payout :: rest
  | .returned _ rest => rest

def PayoutLoop.unmarked : PayoutLoop → Option Payout
  | .returned payout _ => some payout
  | _ => none

def PayoutLoop.unmarkedFor (loop : PayoutLoop) (workerName : Text) : ℚ :=
  loop.unmarked.elim 0 fun payout => if payout.workerName = workerName then payout.amount else 0

namespace PayoutState

variable (settings : Settings) (state : PayoutState)

def next : PayoutState :=
  match state.loop with
  | .paying [] => { state with loop := .sleeping }
  | .paying (payout :: rest) =>
    { state with loop := if settings.enablePayouts then .calling payout rest else .paying rest }
  | _ => state

def endCall (outcome : RpcOutcome) : PayoutState :=
  match state.loop with
  | .calling payout rest =>
    match outcome with
    | .success =>
      { state with chain := payout.payment :: state.chain, loop := .returned payout rest }
    | .error => { state with loop := .sleeping }
    | .timeoutAfterBroadcast =>
      { state with chain := payout.payment :: state.chain, loop := .sleeping }
  | _ => state

def markPaid : PayoutState :=
  match state.loop with
  | .returned payout rest =>
    { state with db := state.db.markPaid payout.workerName payout.amount, loop := .paying rest }
  | _ => state

def step (state : PayoutState) : PayoutEvent → PayoutState
  | .authorizeWorker workerName => { state with db := state.db.authorizeWorker workerName }
  | .recordShare key accepted difficulty =>
    { state with db := (state.db.recordShare settings key accepted difficulty).2 }
  | .wake =>
    match state.loop with
    | .sleeping =>
      { state with loop := .paying (state.db.maturedPayouts settings.payoutThreshold) }
    | _ => state
  | .next => state.next settings
  | .rpc outcome => state.endCall outcome
  | .markPaid => state.markPaid
  | .restart => { state with loop := .sleeping }

def sentTo (workerName : Text) : ℚ :=
  tally Payment.workerName Payment.amount state.chain workerName

def accountOf (workerName : Text) : Account ℚ where
  earned := state.db.creditedTo workerName
  due := state.db.pendingOf workerName
  paid := state.sentTo workerName
  unsettled := state.loop.unmarkedFor workerName

def KeepsPayment (state : PayoutState) (event : PayoutEvent) : Prop :=
  match state.loop, event with
  | .calling _ _, .rpc .timeoutAfterBroadcast => False
  | .returned _ _, .restart => False
  | _, _ => True

instance (state : PayoutState) (event : PayoutEvent) : Decidable (state.KeepsPayment event) := by
  unfold KeepsPayment
  split <;> infer_instance

end PayoutState

/-! ## The invariant -/

structure Payout.Covered (db : PoolDB) (payout : Payout) : Prop where
  nonneg : 0 ≤ payout.pendingBalance
  le_pending : payout.pendingBalance ≤ db.pendingOf payout.workerName
  decimal : IsDecimal 8 payout.pendingBalance

theorem Payout.Covered.amount_eq {db : PoolDB} {payout : Payout} (covered : payout.Covered db) :
    payout.amount = payout.pendingBalance :=
  Theory.Decimal.roundTo_of_isDecimal covered.decimal

structure PayoutInv (state : PayoutState) : Prop where
  sound : ∀ worker, (state.accountOf worker).Sound
  decimal : ∀ worker, IsDecimal 8 (state.db.pendingOf worker)
  covered : ∀ payout ∈ state.loop.queue, payout.Covered state.db
  distinct : (state.loop.queue.map Payout.workerName).Nodup
  /-- The worker of the payment to be marked does not come again in the round. -/
  open_payment : ∀ payout ∈ state.loop.unmarked,
    payout.Covered state.db ∧ payout.workerName ∉ state.loop.queue.map Payout.workerName

namespace PayoutInv

variable {settings : Settings} {state : PayoutState}

theorem start : PayoutInv {} where
  sound worker := ⟨rfl, le_refl 0⟩
  decimal worker := IsDecimal.zero 8
  covered payout listed := by cases listed
  distinct := List.nodup_nil
  open_payment payout isOpen := by cases isOpen

theorem unmarkedFor_nonneg (inv : PayoutInv state) (worker : Text) :
    0 ≤ state.loop.unmarkedFor worker := by
  unfold PayoutLoop.unmarkedFor
  cases isOpen : state.loop.unmarked with
  | none => exact le_refl 0
  | some payout =>
    have covered := (inv.open_payment payout isOpen).1
    dsimp only [Option.elim]
    split
    next => exact covered.amount_eq ▸ covered.nonneg
    next => exact le_refl 0

theorem pending_nonneg (inv : PayoutInv state) (worker : Text) : 0 ≤ state.db.pendingOf worker :=
  le_trans (inv.unmarkedFor_nonneg worker) (inv.sound worker).covered

theorem credit (inv : PayoutInv state) {db : PoolDB} {amount : Text → ℚ}
    (nonneg : ∀ worker, 0 ≤ amount worker) (decimal : ∀ worker, IsDecimal 8 (amount worker))
    (grows : ∀ worker, db.creditedTo worker = state.db.creditedTo worker + amount worker ∧
      db.pendingOf worker = state.db.pendingOf worker + amount worker) :
    PayoutInv { state with db := db } := by
  have stays {payout : Payout} (covered : payout.Covered state.db) : payout.Covered db := by
    refine ⟨covered.nonneg, ?_, covered.decimal⟩
    rw [(grows _).2]
    exact le_trans covered.le_pending (le_add_of_nonneg_right (nonneg _))
  refine ⟨?_, ?_, ?_, inv.distinct, ?_⟩
  · intro worker
    have earned := (inv.sound worker).earn (nonneg worker)
    have same : ({ state with db := db } : PayoutState).accountOf worker =
        (state.accountOf worker).earn (amount worker) := by
      simp only [PayoutState.accountOf, Account.earn, (grows worker).1, (grows worker).2]
      rfl
    rwa [same]
  · intro worker
    show IsDecimal 8 (db.pendingOf worker)
    rw [(grows worker).2]
    exact (inv.decimal worker).add (decimal worker)
  · intro payout listed
    exact stays (inv.covered payout listed)
  · intro payout isOpen
    obtain ⟨covered, others⟩ := inv.open_payment payout isOpen
    exact ⟨stays covered, others⟩

theorem move (inv : PayoutInv state) (noneOpen : state.loop.unmarked = none) {loop : PayoutLoop}
    (stillNone : loop.unmarked = none) (covered : ∀ payout ∈ loop.queue, payout.Covered state.db)
    (distinct : (loop.queue.map Payout.workerName).Nodup) :
    PayoutInv { state with loop := loop } := by
  refine ⟨?_, inv.decimal, covered, distinct, ?_⟩
  · intro worker
    have same : ({ state with loop := loop } : PayoutState).accountOf worker =
        state.accountOf worker := by
      simp only [PayoutState.accountOf, PayoutLoop.unmarkedFor, noneOpen, stillNone]
      rfl
    rw [same]
    exact inv.sound worker
  · simp [stillNone]

theorem sleep (inv : PayoutInv state) (noneOpen : state.loop.unmarked = none) :
    PayoutInv { state with loop := .sleeping } := by
  apply inv.move noneOpen rfl
  · intro payout listed
    cases listed
  · exact List.nodup_nil

theorem wake (inv : PayoutInv state) (threshold : ℚ) (standing : state.loop = .sleeping) :
    PayoutInv { state with loop := .paying (state.db.maturedPayouts threshold) } := by
  have noneOpen : state.loop.unmarked = none := by rw [standing]; rfl
  obtain ⟨distinct, rows⟩ := PoolDB.maturedPayouts_rows state.db threshold
  apply inv.move noneOpen rfl
  · intro payout listed
    have balance := rows payout listed
    refine ⟨?_, le_of_eq balance, ?_⟩
    · rw [balance]
      exact inv.pending_nonneg payout.workerName
    · rw [balance]
      exact inv.decimal payout.workerName
  · exact distinct

theorem next (inv : PayoutInv state) : PayoutInv (state.next settings) := by
  have covered := inv.covered
  have distinct := inv.distinct
  unfold PayoutState.next
  split
  next standing => exact inv.sleep (by rw [standing]; rfl)
  next payout rest standing =>
    have noneOpen : state.loop.unmarked = none := by rw [standing]; rfl
    rw [standing] at covered distinct
    cases settings.enablePayouts with
    | true =>
      show PayoutInv { state with loop := .calling payout rest }
      exact inv.move noneOpen rfl covered distinct
    | false =>
      show PayoutInv { state with loop := .paying rest }
      refine inv.move noneOpen rfl ?_ (List.nodup_cons.mp distinct).2
      intro later listed
      exact covered later (List.mem_cons_of_mem _ listed)
  next => exact inv

variable {payout : Payout} {rest : List Payout}

theorem accountOf_pay (noneOpen : state.loop.unmarked = none) (worker : Text) :
    ({ state with chain := payout.payment :: state.chain, loop := .returned payout rest } :
        PayoutState).accountOf worker =
      (state.accountOf worker).pay (if payout.workerName = worker then payout.amount else 0) := by
  have sent : tally Payment.workerName Payment.amount (payout.payment :: state.chain) worker =
      state.sentTo worker + if payout.workerName = worker then payout.amount else 0 := by
    rw [Theory.tally_cons, add_comm]
    rfl
  simp only [PayoutState.accountOf, Account.pay, PayoutLoop.unmarkedFor, noneOpen]
  rw [PayoutState.sentTo, sent]
  show Account.mk _ _ _ _ = Account.mk _ _ _ (0 + _)
  rw [zero_add]
  rfl

theorem success (inv : PayoutInv state) (standing : state.loop = .calling payout rest) :
    PayoutInv { state with
      chain := payout.payment :: state.chain, loop := .returned payout rest } := by
  have noneOpen : state.loop.unmarked = none := by rw [standing]; rfl
  have covered := inv.covered
  have distinct := inv.distinct
  rw [standing] at covered distinct
  have here := covered payout List.mem_cons_self
  have names := List.nodup_cons.mp distinct
  refine ⟨?_, inv.decimal, ?_, names.2, ?_⟩
  · intro worker
    rw [accountOf_pay noneOpen]
    apply (inv.sound worker).pay
    simp only [PayoutState.accountOf, PayoutLoop.unmarkedFor, noneOpen]
    show 0 + _ ≤ _
    rw [zero_add]
    split
    next same =>
      subst same
      rw [here.amount_eq]
      exact here.le_pending
    next => exact inv.pending_nonneg worker
  · intro later listed
    exact covered later (List.mem_cons_of_mem _ listed)
  · rintro _ ⟨⟩
    exact ⟨here, names.1⟩

theorem accountOf_markPaid (inv : PayoutInv state) (standing : state.loop = .returned payout rest)
    (nonneg : 0 ≤ payout.amount) (worker : Text) :
    ({ state with
        db := state.db.markPaid payout.workerName payout.amount, loop := .paying rest } :
        PayoutState).accountOf worker = (state.accountOf worker).settle := by
  have due : (state.db.markPaid payout.workerName payout.amount).pendingOf worker =
      max (state.db.pendingOf worker - state.loop.unmarkedFor worker) 0 := by
    rw [PoolDB.pendingOf_markPaid _ _ nonneg, standing]
    show _ = max (_ - if payout.workerName = worker then payout.amount else 0) 0
    by_cases same : worker = payout.workerName
    · rw [if_pos same, if_pos same.symm]
    · rw [if_neg same, if_neg (Ne.symm same), sub_zero, max_eq_left (inv.pending_nonneg worker)]
  simp only [PayoutState.accountOf, Account.settle, due, PoolDB.creditedTo, PoolDB.shares_markPaid]
  rfl

theorem markPaid (inv : PayoutInv state) : PayoutInv state.markPaid := by
  unfold PayoutState.markPaid
  split
  next payout rest standing =>
    have covered := inv.covered
    have distinct := inv.distinct
    obtain ⟨here, others⟩ := inv.open_payment payout (by rw [standing]; rfl)
    have nonneg : 0 ≤ payout.amount := here.amount_eq ▸ here.nonneg
    rw [standing] at covered distinct others
    refine ⟨?_, ?_, ?_, distinct, ?_⟩
    · intro worker
      rw [inv.accountOf_markPaid standing nonneg]
      exact (inv.sound worker).settle
    · intro worker
      show IsDecimal 8 ((state.db.markPaid payout.workerName payout.amount).pendingOf worker)
      rw [PoolDB.pendingOf_markPaid _ _ nonneg]
      split
      next same =>
        rw [same, max_eq_left (sub_nonneg.mpr (here.amount_eq ▸ here.le_pending)),
          here.amount_eq]
        exact (inv.decimal payout.workerName).sub here.decimal
      next => exact inv.decimal worker
    · intro later listed
      have earlier := covered later listed
      refine ⟨earlier.nonneg, ?_, earlier.decimal⟩
      have differs : later.workerName ≠ payout.workerName := by
        intro same
        exact others (same ▸ List.mem_map_of_mem listed)
      show _ ≤ (state.db.markPaid payout.workerName payout.amount).pendingOf later.workerName
      rw [PoolDB.pendingOf_markPaid _ _ nonneg, if_neg differs]
      exact earlier.le_pending
    · intro payout isOpen
      cases isOpen
  next => exact inv

theorem endCall (inv : PayoutInv state) {outcome : RpcOutcome}
    (keeps : state.KeepsPayment (.rpc outcome)) : PayoutInv (state.endCall outcome) := by
  unfold PayoutState.endCall
  split
  next payout rest standing =>
    cases outcome with
    | success => exact inv.success standing
    | error => exact inv.sleep (by rw [standing]; rfl)
    | timeoutAfterBroadcast =>
      simp only [PayoutState.KeepsPayment, standing] at keeps
  next => exact inv

theorem restart (inv : PayoutInv state) (keeps : state.KeepsPayment .restart) :
    PayoutInv { state with loop := .sleeping } := by
  apply inv.sleep
  cases standing : state.loop with
  | returned payout rest =>
    simp only [PayoutState.KeepsPayment, standing] at keeps
  | sleeping => rfl
  | paying rest => rfl
  | calling payout rest => rfl

/-- **One step.** -/
theorem step (inv : PayoutInv state) {event : PayoutEvent} (keeps : state.KeepsPayment event) :
    PayoutInv (state.step settings event) := by
  cases event with
  | authorizeWorker workerName =>
    refine inv.credit (fun _ => le_refl 0) (fun _ => IsDecimal.zero 8) fun worker => ⟨?_, ?_⟩
    · exact (add_zero _).symm
    · rw [PoolDB.pendingOf_authorizeWorker, add_zero]
  | recordShare key accepted difficulty =>
    obtain ⟨amount, nonneg, decimal, grows⟩ :=
      PoolDB.recordShare_credits settings state.db key accepted difficulty
    exact inv.credit nonneg decimal grows
  | wake =>
    show PayoutInv (match state.loop with | .sleeping => _ | _ => _)
    split
    next standing => exact inv.wake _ standing
    next => exact inv
  | next => exact inv.next
  | rpc outcome => exact inv.endCall keeps
  | markPaid => exact inv.markPaid
  | restart => exact inv.restart keeps

end PayoutInv

/-! ## Runs -/

def payingSettings : Settings := { shipped with enablePayouts := true }

def largeShare : PayoutEvent :=
  .recordShare ⟨"miner.rig".toList, "4f1d0c2a9b33".toList, "0a0b0c0d".toList, "00f15365".toList,
    "00000001".toList⟩ true 2500

def paidRound : List PayoutEvent :=
  [.authorizeWorker "miner.rig".toList, largeShare, .wake, .next,
    .recordShare ⟨"miner.rig".toList, "4f1d0c2a9b33".toList, "0a0b0c0e".toList,
      "00f15365".toList, "00000001".toList⟩ true 100,
    .rpc .success, .markPaid, .next, .restart]

def timedOutRound : List PayoutEvent :=
  [.authorizeWorker "miner.rig".toList, largeShare, .wake, .next, .rpc .timeoutAfterBroadcast,
    .wake, .next, .rpc .success, .markPaid]

end QuantBTC.Pool
