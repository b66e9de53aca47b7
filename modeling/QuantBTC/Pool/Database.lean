/-
# Pool.Database -- the shares and the balances of the pool

`PoolDB`: the table of submitted shares with its unique index and the table of workers.
The floats of the source are taken as the exact rationals they stand for, and a rounding
to eight places as that of exact decimals.
-/
import QuantBTC.Theory.Account
import QuantBTC.Theory.Decimal
import QuantBTC.Theory.Hex
import QuantBTC.Theory.Maps

namespace QuantBTC.Pool

set_option autoImplicit false

open Theory (tally)
open Theory.Decimal (IsDecimal roundTo)

abbrev Text := List Char

/-! ## Settings -/

structure Settings where
  maxJobAgeSec : Int := 180
  maxFutureNtimeDriftSec : Int := 90
  defaultShareDifficulty : ℚ := 0.00025
  minShareDifficulty : ℚ := 0.000001
  shareReward : ℚ := 0.01
  payoutThreshold : ℚ := 25
  enablePayouts : Bool := false
  poolMiningScript : Text := "00146ae624eea37ba87a447224504a99095c717ddbe8".toList
  divide : ℚ → ℚ → ℚ := fun x y => x / y
  minShareDifficulty_pos : 0 < minShareDifficulty := by decide +kernel
  shareReward_nonneg : 0 ≤ shareReward := by decide +kernel
  poolMiningScript_short : ∀ script ∈ Theory.Hex.fromHex poolMiningScript,
    script.length < 253 := by decide +kernel

def shipped : Settings := {}

namespace Settings

variable (settings : Settings)

def shareDifficulty (difficulty : ℚ) : ℚ :=
  max (if difficulty = 0 then settings.defaultShareDifficulty else difficulty)
    settings.minShareDifficulty

theorem shareDifficulty_pos (difficulty : ℚ) : 0 < settings.shareDifficulty difficulty :=
  lt_of_lt_of_le settings.minShareDifficulty_pos (le_max_right _ _)

theorem shareDifficulty_of_min_le {difficulty : ℚ}
    (least : settings.minShareDifficulty ≤ difficulty) :
    settings.shareDifficulty difficulty = difficulty := by
  have pos := lt_of_lt_of_le settings.minShareDifficulty_pos least
  rw [shareDifficulty, if_neg (ne_of_gt pos), max_eq_left least]

def rewardValue (accepted : Bool) (difficulty : ℚ) : ℚ :=
  if accepted then roundTo 8 (settings.shareDifficulty difficulty * settings.shareReward) else 0

theorem rewardValue_nonneg (accepted : Bool) (difficulty : ℚ) :
    0 ≤ settings.rewardValue accepted difficulty := by
  cases accepted with
  | false => exact le_refl 0
  | true =>
    exact Theory.Decimal.roundTo_nonneg
      (mul_nonneg (settings.shareDifficulty_pos difficulty).le settings.shareReward_nonneg)

theorem isDecimal_rewardValue (accepted : Bool) (difficulty : ℚ) :
    IsDecimal 8 (settings.rewardValue accepted difficulty) := by
  cases accepted with
  | false => exact IsDecimal.zero 8
  | true => exact Theory.Decimal.isDecimal_roundTo 8 _

end Settings

/-! ## Tables -/

structure ShareKey where
  workerName : Text
  jobId : Text
  nonce : Text
  ntime : Text
  extranonce2 : Text
deriving DecidableEq, Repr

structure ShareRow where
  key : ShareKey
  accepted : Bool
  difficulty : ℚ
  rewardValue : ℚ
deriving DecidableEq, Repr

def ShareRow.earned (row : ShareRow) : ℚ := if row.accepted then row.rewardValue else 0

structure WorkerRow where
  payoutAddress : Text
  acceptedShares : Nat := 0
  invalidShares : Nat := 0
  weightedShares : ℚ := 0
  pendingBalance : ℚ := 0
  totalPaid : ℚ := 0
deriving DecidableEq, Repr

structure PoolDB where
  shares : List ShareRow := []
  workers : AList (fun _ : Text => WorkerRow) := ∅
  unique : (shares.map ShareRow.key).Nodup := by exact List.nodup_nil

structure Payout where
  workerName : Text
  payoutAddress : Text
  pendingBalance : ℚ
deriving DecidableEq, Repr

def payoutAddressOf (workerName : Text) : Text := workerName.takeWhile (· != '.')

inductive RecordReason
  | accepted
  | duplicateShare
  | staleOrUnauthorizedShare
deriving DecidableEq, Repr

namespace PoolDB

variable (settings : Settings) (db : PoolDB)

def upsertWorker (workerName : Text) (fresh : WorkerRow) (update : WorkerRow → WorkerRow) :
    PoolDB :=
  { db with
    workers := db.workers.insert workerName ((db.workers.lookup workerName).elim fresh update) }

def authorizeWorker (workerName : Text) : PoolDB :=
  db.upsertWorker workerName { payoutAddress := payoutAddressOf workerName } id

def countInvalid (workerName : Text) : PoolDB :=
  db.upsertWorker workerName { payoutAddress := payoutAddressOf workerName, invalidShares := 1 }
    fun row => { row with invalidShares := row.invalidShares + 1 }

def countAccepted (workerName : Text) (difficulty rewardValue : ℚ) : PoolDB :=
  db.upsertWorker workerName
    { payoutAddress := payoutAddressOf workerName, acceptedShares := 1,
      weightedShares := difficulty, pendingBalance := rewardValue }
    fun row => { row with
      acceptedShares := row.acceptedShares + 1
      weightedShares := row.weightedShares + difficulty
      pendingBalance := row.pendingBalance + rewardValue }

def keys : List ShareKey := db.shares.map ShareRow.key

def acceptedKeys : List ShareKey := (db.shares.filter ShareRow.accepted).map ShareRow.key

def insertShare (row : ShareRow) (free : row.key ∉ db.keys) : PoolDB :=
  { db with shares := row :: db.shares, unique := List.nodup_cons.mpr ⟨free, db.unique⟩ }

def recordShare (key : ShareKey) (accepted : Bool) (difficulty : ℚ) :
    (Bool × RecordReason) × PoolDB :=
  let rewardValue := settings.rewardValue accepted difficulty
  let difficulty := settings.shareDifficulty difficulty
  if taken : key ∈ db.keys then
    ((false, .duplicateShare), db.countInvalid key.workerName)
  else
    let db := db.insertShare { key, accepted, difficulty, rewardValue } taken
    if accepted then
      ((true, .accepted), db.countAccepted key.workerName difficulty rewardValue)
    else
      ((false, .staleOrUnauthorizedShare), db.countInvalid key.workerName)

def maturedPayouts (threshold : ℚ) : List Payout :=
  let rows := db.workers.entries.map fun entry =>
    { workerName := entry.1, payoutAddress := entry.2.payoutAddress,
      pendingBalance := entry.2.pendingBalance : Payout }
  (rows.filter fun row => threshold ≤ row.pendingBalance).insertionSort
    fun row other => other.pendingBalance ≤ row.pendingBalance

def markPaid (workerName : Text) (amount : ℚ) : PoolDB :=
  match db.workers.lookup workerName with
  | none => db
  | some row =>
    { db with workers := db.workers.insert workerName { row with
        pendingBalance := max (row.pendingBalance - amount) 0
        totalPaid := row.totalPaid + amount } }

/-! ## Readings -/

def pendingOf (workerName : Text) : ℚ :=
  (db.workers.lookup workerName).elim 0 WorkerRow.pendingBalance

def creditedTo (workerName : Text) : ℚ :=
  tally (fun row : ShareRow => row.key.workerName) ShareRow.earned db.shares workerName

variable {settings db}

variable (workerName : Text)

theorem pendingOf_upsertWorker (other : Text) (fresh : WorkerRow) (update : WorkerRow → WorkerRow) :
    (db.upsertWorker workerName fresh update).pendingOf other =
      if other = workerName then
        (db.workers.lookup workerName).elim fresh.pendingBalance
          (fun row => (update row).pendingBalance)
      else db.pendingOf other := by
  unfold pendingOf upsertWorker
  by_cases same : other = workerName
  · subst same
    rw [if_pos rfl, AList.lookup_insert]
    cases db.workers.lookup other with
    | none => rfl
    | some row => rfl
  · rw [if_neg same, AList.lookup_insert_ne same]

theorem pendingOf_upsertWorker_same {workerName : Text} {fresh : WorkerRow}
    {update : WorkerRow → WorkerRow} (zero : fresh.pendingBalance = 0)
    (keeps : ∀ row, (update row).pendingBalance = row.pendingBalance) (other : Text) :
    (db.upsertWorker workerName fresh update).pendingOf other = db.pendingOf other := by
  rw [pendingOf_upsertWorker]
  split
  next same =>
    subst same
    unfold pendingOf
    cases db.workers.lookup other with
    | none => exact zero
    | some row => exact keeps row
  next => rfl

@[simp] theorem pendingOf_authorizeWorker (other : Text) :
    (db.authorizeWorker workerName).pendingOf other = db.pendingOf other :=
  pendingOf_upsertWorker_same rfl (fun _ => rfl) other

@[simp] theorem pendingOf_countInvalid (other : Text) :
    (db.countInvalid workerName).pendingOf other = db.pendingOf other := by
  unfold countInvalid
  apply pendingOf_upsertWorker_same
  · rfl
  · intro row
    rfl

theorem pendingOf_countAccepted (other : Text) (difficulty rewardValue : ℚ) :
    (db.countAccepted workerName difficulty rewardValue).pendingOf other =
      db.pendingOf other + if workerName = other then rewardValue else 0 := by
  rw [countAccepted, pendingOf_upsertWorker]
  split
  next same =>
    subst same
    rw [if_pos rfl]
    unfold pendingOf
    cases db.workers.lookup other with
    | none => exact (zero_add rewardValue).symm
    | some row => rfl
  next differs => rw [if_neg (Ne.symm differs), add_zero]

theorem pendingOf_markPaid (other : Text) {amount : ℚ} (nonneg : 0 ≤ amount) :
    (db.markPaid workerName amount).pendingOf other =
      if other = workerName then max (db.pendingOf other - amount) 0 else db.pendingOf other := by
  unfold markPaid
  by_cases same : other = workerName
  · subst same
    rw [if_pos rfl]
    cases found : db.workers.lookup other with
    | none =>
      have empty : db.pendingOf other = 0 := by rw [pendingOf, found]; rfl
      rw [empty, zero_sub, max_eq_right (neg_nonpos.mpr nonneg)]
    | some row =>
      simp only [pendingOf, AList.lookup_insert, found]
      rfl
  · grind [pendingOf, AList.lookup_insert_ne]

@[simp] theorem shares_markPaid (amount : ℚ) :
    (db.markPaid workerName amount).shares = db.shares := by
  unfold markPaid
  split <;> rfl

theorem recordShare_spec (settings : Settings) (db : PoolDB) (key : ShareKey) (accepted : Bool)
    (difficulty : ℚ) :
    let recorded := db.recordShare settings key accepted difficulty
    let reward := settings.rewardValue accepted difficulty
    (key ∈ db.keys ∧ recorded.1.1 = false ∧ recorded.2.shares = db.shares ∧
      recorded.2.pendingOf = db.pendingOf) ∨
    (key ∉ db.keys ∧ recorded.1.1 = accepted ∧
      recorded.2.shares =
        ⟨key, accepted, settings.shareDifficulty difficulty, reward⟩ :: db.shares ∧
      ∀ worker, recorded.2.pendingOf worker =
        db.pendingOf worker + if key.workerName = worker then reward else 0) := by
  unfold recordShare
  split
  next taken => exact .inl ⟨taken, rfl, rfl, funext fun worker => pendingOf_countInvalid _ _⟩
  next free =>
    refine .inr ⟨free, ?_⟩
    cases accepted with
    | true => exact ⟨rfl, rfl, fun worker => pendingOf_countAccepted _ _ _ _⟩
    | false =>
      refine ⟨rfl, rfl, fun worker => ?_⟩
      have nothing : settings.rewardValue false difficulty = 0 := rfl
      rw [nothing, ite_self, add_zero]
      exact pendingOf_countInvalid _ _

theorem recordShare_credits (settings : Settings) (db : PoolDB) (key : ShareKey)
    (accepted : Bool) (difficulty : ℚ) :
    ∃ amount : Text → ℚ, (∀ worker, 0 ≤ amount worker) ∧ (∀ worker, IsDecimal 8 (amount worker)) ∧
      ∀ worker,
        (db.recordShare settings key accepted difficulty).2.creditedTo worker =
          db.creditedTo worker + amount worker ∧
        (db.recordShare settings key accepted difficulty).2.pendingOf worker =
          db.pendingOf worker + amount worker := by
  rcases recordShare_spec settings db key accepted difficulty with
    ⟨_, _, shares, pending⟩ | ⟨_, _, shares, pending⟩
  · refine ⟨fun _ => 0, fun _ => le_refl 0, fun _ => IsDecimal.zero 8, fun worker => ⟨?_, ?_⟩⟩
    · rw [creditedTo, creditedTo, shares, add_zero]
    · rw [pending, add_zero]
  · refine ⟨fun worker =>
      if key.workerName = worker then settings.rewardValue accepted difficulty else 0, ?_, ?_, ?_⟩
    · intro worker
      dsimp only
      split
      · exact settings.rewardValue_nonneg accepted difficulty
      · exact le_refl 0
    · intro worker
      dsimp only
      split
      · exact settings.isDecimal_rewardValue accepted difficulty
      · exact IsDecimal.zero 8
    · intro worker
      have earned : ShareRow.earned ⟨key, accepted, settings.shareDifficulty difficulty,
          settings.rewardValue accepted difficulty⟩ = settings.rewardValue accepted difficulty := by
        cases accepted with
        | true => rfl
        | false => rfl
      refine ⟨?_, pending worker⟩
      rw [creditedTo, shares, Theory.tally_cons, earned, add_comm]
      rfl

theorem maturedPayouts_rows (db : PoolDB) (threshold : ℚ) :
    ((db.maturedPayouts threshold).map Payout.workerName).Nodup ∧
      ∀ payout ∈ db.maturedPayouts threshold,
        payout.pendingBalance = db.pendingOf payout.workerName := by
  unfold maturedPayouts
  constructor
  · have sorted := List.perm_insertionSort
      (fun row other : Payout => other.pendingBalance ≤ row.pendingBalance)
      ((db.workers.entries.map fun entry =>
        { workerName := entry.1, payoutAddress := entry.2.payoutAddress,
          pendingBalance := entry.2.pendingBalance : Payout }).filter
        fun row => threshold ≤ row.pendingBalance)
    rw [(sorted.map _).nodup_iff]
    refine List.Nodup.sublist (List.filter_sublist.map _) ?_
    rw [List.map_map]
    exact db.workers.nodupKeys
  · intro payout listed
    rw [List.mem_insertionSort, List.mem_filter, List.mem_map] at listed
    obtain ⟨⟨entry, inTable, rfl⟩, -⟩ := listed
    have found := Theory.Maps.lookup_of_mem_entries inTable
    rw [pendingOf, found]
    rfl

end PoolDB

end QuantBTC.Pool
