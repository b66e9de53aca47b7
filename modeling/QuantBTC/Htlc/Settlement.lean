/-
# Htlc.Settlement -- every call sequence keeps the swaps safe

Anyone may call the contract and use the token at any time.  A successful call opens a
record, settles an open one, or leaves the records alone (`Effect`); everything below is
read off these cases, by one lemma per case and one induction over the run.
-/
import QuantBTC.Htlc.Contract
import QuantBTC.Theory.Escrow
import QuantBTC.Theory.Runs

namespace QuantBTC.Htlc

set_option autoImplicit false

open Primitives Theory
open QuantBTC.Theory.Escrow (Solvent)

/-! ## Calls -/

inductive Action where
  | initiate (receiver : Address) (hashlock : Bytes32) (timelock amount : Word)
  | initiateWithPermit (receiver : Address) (hashlock : Bytes32) (timelock amount deadline : Word)
      (v : UInt8) (r s : Bytes32)
  | withdraw (contractId preimage : Bytes32)
  | refund (contractId : Bytes32)
  | transfer (recipient : Address) (amount : Word)
  | transferFrom (owner recipient : Address) (amount : Word)
  | approve (spender : Address) (amount : Word)
deriving DecidableEq, Repr

structure Call where
  caller : Address
  time : Word
  action : Action
deriving DecidableEq, Repr

def Call.Outside (self : Address) (call : Call) : Prop :=
  call.caller ≠ self ∧
    ∀ owner recipient amount, call.action = .transferFrom owner recipient amount → owner ≠ self

def afterToken {τ : Type} (world : World τ) :
    Option τ → Except HtlcError (World τ × List Log)
  | some token => .ok ({ world with token }, [])
  | none => .error .tokenReverted

/-- One call. -/
def exec {τ : Type} (env : Env τ) (world : World τ) (call : Call) :
    Except HtlcError (World τ × List Log) :=
  match call.action with
  | .initiate receiver hashlock timelock amount =>
    (initiate env world call.time call.caller receiver hashlock timelock amount).map
      fun out => (out.2.1, [out.2.2])
  | .initiateWithPermit receiver hashlock timelock amount deadline v r s =>
    (initiateWithPermit env world call.time call.caller receiver hashlock timelock amount
      deadline v r s).map fun out => (out.2.1, [out.2.2])
  | .withdraw contractId preimage =>
    (withdraw env world call.time contractId preimage).map fun out => (out.1, [out.2])
  | .refund contractId =>
    (refund env world call.time contractId).map fun out => (out.1, [out.2])
  | .transfer recipient amount =>
    afterToken world (env.token.transfer world.token call.caller recipient amount)
  | .transferFrom owner recipient amount =>
    afterToken world (env.token.transferFrom world.token call.caller owner recipient amount)
  | .approve spender amount =>
    afterToken world (env.token.approve world.token call.caller spender amount)

structure History (τ : Type) where
  world : World τ
  logs : List Log := []

def History.step {τ : Type} (env : Env τ) (history : History τ) (call : Call) : History τ :=
  match exec env history.world call with
  | .ok (world, logs) => ⟨world, history.logs ++ logs⟩
  | .error _ => history

def History.deployed {τ : Type} (token : τ) : History τ := ⟨⟨{}, token⟩, []⟩

def run {τ : Type} (env : Env τ) (token : τ) (calls : List Call) : History τ :=
  calls.foldl (History.step env) (.deployed token)

/-! ## What a call can do -/

section

variable {τ : Type} {env : Env τ} {world after : World τ} {call : Call} {logs : List Log}

/-- **The effects of a successful call.** -/
inductive Effect (env : Env τ) (world : World τ) (call : Call) (after : World τ) :
    List Log → Prop
  | opened (contractId : Bytes32) (record : LockContract)
      (fresh : (world.htlc.contracts contractId).amount = 0) (isOpen : record.Open)
      (written : after.htlc.contracts = Function.update world.htlc.contracts contractId record)
      (received : env.token.balanceOf after.token env.self
        = env.token.balanceOf world.token env.self + record.amount.val) :
      Effect env world call after [.htlcInitiate contractId record.sender record.receiver
        record.amount record.hashlock record.timelock]
  | withdrawn (contractId preimage : Bytes32)
      (isOpen : (world.htlc.contracts contractId).Open) (nonzero : preimage ≠ 0)
      (early : call.time < (world.htlc.contracts contractId).timelock)
      (opens : (world.htlc.contracts contractId).hashlock = env.sha256 (uint256Bytes preimage))
      (written : after.htlc.contracts = Function.update world.htlc.contracts contractId
        { world.htlc.contracts contractId with preimage, withdrawn := true })
      (paid : env.token.balanceOf after.token = moved (env.token.balanceOf world.token) env.self
        (world.htlc.contracts contractId).receiver (world.htlc.contracts contractId).amount.val) :
      Effect env world call after [.htlcWithdraw contractId preimage]
  | refunded (contractId : Bytes32)
      (isOpen : (world.htlc.contracts contractId).Open)
      (late : (world.htlc.contracts contractId).timelock ≤ call.time)
      (written : after.htlc.contracts = Function.update world.htlc.contracts contractId
        { world.htlc.contracts contractId with refunded := true })
      (paid : env.token.balanceOf after.token = moved (env.token.balanceOf world.token) env.self
        (world.htlc.contracts contractId).sender (world.htlc.contracts contractId).amount.val) :
      Effect env world call after [.htlcRefund contractId]
  | tokenOnly (same : after.htlc = world.htlc)
      (kept : env.token.balanceOf world.token env.self ≤ env.token.balanceOf after.token env.self) :
      Effect env world call after []

variable {balances : Address → Nat}

theorem moved_recipient {owner self : Address} {amount : Nat} (other : owner ≠ self) :
    moved balances owner self amount self = balances self + amount := by
  simp [moved, Function.update_of_ne other.symm]

theorem le_moved {owner recipient self : Address} {amount : Nat} (other : owner ≠ self) :
    balances self ≤ moved balances owner recipient amount self := by
  rcases eq_or_ne recipient self with rfl | another
  · rw [moved_recipient other]
    exact Nat.le_add_right _ _
  · simp [moved, Function.update_of_ne other.symm, Function.update_of_ne another.symm]

theorem sub_le_moved (balances : Address → Nat) (owner recipient : Address) (amount : Nat) :
    balances owner - amount ≤ moved balances owner recipient amount owner := by
  rcases eq_or_ne recipient owner with rfl | another
  · simp [moved]
  · simp [moved, Function.update_of_ne another.symm]

theorem initiateInternal_effect (exact_ : env.token.Exact) {sender receiver : Address}
    {hashlock contractId : Bytes32} {timelock amount : Word} {log : Log} (other : sender ≠ env.self)
    {token : τ} (balances : env.token.balanceOf token = env.token.balanceOf world.token)
    (ok : initiateInternal env { world with token } call.time sender receiver hashlock timelock
      amount = .ok (contractId, after, log)) : Effect env world call after [log] := by
  obtain ⟨positive, fresh, written, transferred, rfl⟩ := initiateInternal_ok ok
  have received := (exact_.transferFrom_moves transferred).2
  refine .opened contractId { sender, receiver, amount, hashlock, timelock } fresh
    ⟨positive, rfl, rfl⟩ written ?_
  rw [received, moved_recipient other, balances]

theorem map_ok {ε α β : Type} {f : α → β} {result : Except ε α} {out : β}
    (ok : result.map f = .ok out) : ∃ value, result = .ok value ∧ f value = out := by
  cases result with
  | error _ => cases ok
  | ok value => exact ⟨value, rfl, Except.ok.inj ok⟩

theorem afterToken_effect {result : Option τ} (ok : afterToken world result = .ok (after, logs))
    (kept : ∀ token, result = some token →
      env.token.balanceOf world.token env.self ≤ env.token.balanceOf token env.self) :
    Effect env world call after logs := by
  cases result with
  | none => cases ok
  | some token =>
    cases ok
    exact .tokenOnly rfl (kept token rfl)

/-- **The effects are all a successful call can do.** -/
theorem exec_effect (exact_ : env.token.Exact) (outside : call.Outside env.self)
    (ok : exec env world call = .ok (after, logs)) : Effect env world call after logs := by
  obtain ⟨other, spends⟩ := outside
  unfold exec at ok
  split at ok
  next receiver hashlock timelock amount _ =>
    obtain ⟨⟨contractId, result, log⟩, opened, same⟩ := map_ok ok
    cases same
    exact initiateInternal_effect exact_ other rfl opened
  next receiver hashlock timelock amount deadline v r s _ =>
    obtain ⟨⟨contractId, result, log⟩, opened, same⟩ := map_ok ok
    cases same
    unfold initiateWithPermit at opened
    split at opened
    · cases opened
    next token permitted =>
      exact initiateInternal_effect exact_ other (exact_.permit_keeps permitted) opened
  next contractId preimage _ =>
    obtain ⟨⟨result, log⟩, withdrawn, same⟩ := map_ok ok
    cases same
    obtain ⟨isOpen, nonzero, early, opens, written, paid, rfl⟩ := withdraw_ok withdrawn
    exact .withdrawn contractId preimage isOpen nonzero early opens written
      (exact_.transfer_moves paid).2
  next contractId _ =>
    obtain ⟨⟨result, log⟩, refunded, same⟩ := map_ok ok
    cases same
    obtain ⟨isOpen, late, written, paid, rfl⟩ := refund_ok refunded
    exact .refunded contractId isOpen late written (exact_.transfer_moves paid).2
  · refine afterToken_effect ok ?_
    intro token transferred
    rw [(exact_.transfer_moves transferred).2]
    exact le_moved other
  next owner recipient amount action =>
    refine afterToken_effect ok ?_
    intro token transferred
    rw [(exact_.transferFrom_moves transferred).2]
    exact le_moved (spends owner recipient amount action)
  · refine afterToken_effect ok ?_
    intro token approved
    rw [exact_.approve_keeps approved]

/-! ## Solvency -/

def LockContract.outstanding (c : LockContract) : Nat :=
  if c.withdrawn || c.refunded then 0 else c.amount.val

def World.Covered (env : Env τ) (world : World τ) : Prop :=
  Solvent (fun contractId => (world.htlc.contracts contractId).outstanding)
    (env.token.balanceOf world.token env.self)

theorem outstanding_update (contracts : Bytes32 → LockContract) (contractId : Bytes32)
    (record : LockContract) :
    (fun id => (Function.update contracts contractId record id).outstanding)
      = Function.update (fun id => (contracts id).outstanding) contractId record.outstanding := by
  grind

theorem outstanding_of_open {c : LockContract} (isOpen : c.Open) :
    c.outstanding = c.amount.val := by
  simp [LockContract.outstanding, isOpen.notWithdrawn, isOpen.notRefunded]

theorem outstanding_of_fresh {c : LockContract} (fresh : c.amount = 0) : c.outstanding = 0 := by
  simp [LockContract.outstanding, fresh]

theorem Covered.settle {contractId : Bytes32} {record : LockContract} {recipient : Address}
    (covered : world.Covered env) (isOpen : (world.htlc.contracts contractId).Open)
    (settled : record.outstanding = 0)
    (written : after.htlc.contracts = Function.update world.htlc.contracts contractId record)
    (paid : env.token.balanceOf after.token = moved (env.token.balanceOf world.token) env.self
      recipient (world.htlc.contracts contractId).amount.val) : after.Covered env := by
  have left := covered.pay (i := contractId)
  unfold World.Covered
  rw [written, outstanding_update, settled, paid]
  refine left.mono ?_
  rw [outstanding_of_open isOpen]
  exact sub_le_moved _ _ _ _

theorem Effect.covered (effect : Effect env world call after logs) (covered : world.Covered env) :
    after.Covered env := by
  cases effect with
  | opened contractId record fresh isOpen written received =>
    unfold World.Covered
    rw [written, outstanding_update, received, outstanding_of_open isOpen]
    exact Solvent.take covered (outstanding_of_fresh fresh)
  | withdrawn contractId preimage isOpen nonzero early opens written paid =>
    exact Covered.settle covered isOpen rfl written paid
  | refunded contractId isOpen late written paid =>
    refine Covered.settle covered isOpen ?_ written paid
    simp [LockContract.outstanding]
  | tokenOnly same kept =>
    unfold World.Covered
    rw [same]
    exact Solvent.mono covered kept

theorem run_invariant (exact_ : env.token.Exact) {token : τ} {calls : List Call}
    (outside : ∀ call ∈ calls, call.Outside env.self) (Inv : History τ → Prop)
    (start : Inv (.deployed token))
    (keeps : ∀ (history : History τ) (call : Call) (after : World τ) (logs : List Log),
      Effect env history.world call after logs → Inv history →
        Inv ⟨after, history.logs ++ logs⟩) :
    Inv (run env token calls) := by
  have meets : Runs.StepsMeet (History.step env) (fun _ call => call.Outside env.self)
      (.deployed token) calls := Runs.stepsMeet_of_forall outside
  refine meets.invariant Inv ?_ start
  intro history call holds outside
  unfold History.step
  split
  next world logs ok => exact keeps history call world logs (exec_effect exact_ outside ok) holds
  · exact holds

end

/-- **Solvency.**  With a standard token, after every sequence of calls by any other accounts, and
any transfers of their tokens in between, the contract holds at least the amounts of all records
that are neither withdrawn nor refunded. -/
theorem htlc_solvent {τ : Type} (env : Env τ) (exact_ : env.token.Exact) (token : τ)
    (calls : List Call) (outside : ∀ call ∈ calls, call.Outside env.self) :
    ∑ contractId, ((run env token calls).world.htlc.contracts contractId).outstanding
      ≤ env.token.balanceOf (run env token calls).world.token env.self := by
  refine run_invariant exact_ outside (fun history => history.world.Covered env) ?_ ?_
  · exact Escrow.solvent_zero _
  · intro history call after logs effect covered
    exact effect.covered covered

structure Ledger where
  balances : Address → Nat
  allowances : Address → Address → Nat := fun _ _ => 0

def Ledger.move (ledger : Ledger) (owner recipient : Address) (amount : Word) : Option Ledger :=
  if amount.val ≤ ledger.balances owner then
    some { ledger with balances := moved ledger.balances owner recipient amount.val }
  else none

def Ledger.allow (ledger : Ledger) (owner spender : Address) (amount : Nat) : Ledger :=
  let granted := Function.update (ledger.allowances owner) spender amount
  { ledger with allowances := Function.update ledger.allowances owner granted }

def ledgerToken : Erc20 Ledger where
  balanceOf := Ledger.balances
  transfer ledger caller recipient amount := ledger.move caller recipient amount
  transferFrom ledger caller owner recipient amount :=
    if amount.val ≤ ledger.allowances owner caller then
      (ledger.move owner recipient amount).map fun after =>
        after.allow owner caller (ledger.allowances owner caller - amount.val)
    else none
  approve ledger caller spender amount := some (ledger.allow caller spender amount.val)
  permit ledger now owner spender value deadline _ _ _ :=
    if now ≤ deadline then some (ledger.allow owner spender value.val) else none

theorem Ledger.move_eq {ledger after : Ledger} {owner recipient : Address} {amount : Word}
    (moves : ledger.move owner recipient amount = some after) :
    amount.val ≤ ledger.balances owner ∧
      after.balances = moved ledger.balances owner recipient amount.val := by grind [move]

theorem exact_ledgerToken : ledgerToken.Exact where
  transfer_moves moves := Ledger.move_eq moves
  transferFrom_moves moves := by
    simp only [ledgerToken] at moves
    split at moves
    · obtain ⟨after, inner, rfl⟩ := Option.map_eq_some_iff.mp moves
      have balances := Ledger.move_eq inner
      exact ⟨balances.1, balances.2⟩
    · cases moves
  approve_keeps approved := by
    cases approved
    rfl
  permit_keeps permitted := by
    simp only [ledgerToken] at permitted
    split at permitted
    · cases permitted
      rfl
    · cases permitted

def sampleEnv : Env Ledger :=
  { self := 1, keccak256 := digitHash, sha256 := digitHash, token := ledgerToken }

def sampleLedger : Ledger := { balances := fun account => if account = 2 then 100 else 0 }

def sampleId : Bytes32 :=
  digitHash (encodeId 2 3 40 (digitHash (uint256Bytes 77)) 10000 0)

def sampleCalls : List Call :=
  [⟨2, 1000, .approve 1 40⟩,
    ⟨2, 1000, .initiate 3 (digitHash (uint256Bytes 77)) 10000 40⟩,
    ⟨4, 2000, .withdraw sampleId 77⟩,
    ⟨2, 20000, .refund sampleId⟩]

theorem sampleCalls_outside : ∀ call ∈ sampleCalls, call.Outside sampleEnv.self := by
  intro call listed
  simp only [sampleCalls, List.mem_cons, List.not_mem_nil, or_false] at listed
  rcases listed with rfl | rfl | rfl | rfl <;> exact ⟨by decide, by simp⟩

theorem htlc_solvent_sample :
    ∑ contractId, ((run sampleEnv sampleLedger sampleCalls).world.htlc.contracts
        contractId).outstanding
      ≤ sampleEnv.token.balanceOf (run sampleEnv sampleLedger sampleCalls).world.token
        sampleEnv.self :=
  htlc_solvent sampleEnv exact_ledgerToken sampleLedger sampleCalls sampleCalls_outside

/-! ## Settlement -/

def Log.settles (contractId : Bytes32) : Log → Bool
  | .htlcWithdraw id _ => id == contractId
  | .htlcRefund id => id == contractId
  | .htlcInitiate .. => false

def LockContract.terms (c : LockContract) : Address × Address × Word × Bytes32 × Word :=
  (c.sender, c.receiver, c.amount, c.hashlock, c.timelock)

def LockContract.settlements (c : LockContract) : Nat :=
  (if c.withdrawn then 1 else 0) + (if c.refunded then 1 else 0)

structure LockContract.InOrder {τ : Type} (env : Env τ) (c : LockContract) : Prop where
  once : c.settlements ≤ 1
  shown : c.withdrawn = true → c.preimage ≠ 0 ∧ env.sha256 (uint256Bytes c.preimage) = c.hashlock

structure History.InOrder {τ : Type} (env : Env τ) (history : History τ) : Prop where
  records : ∀ contractId, (history.world.htlc.contracts contractId).InOrder env
  logged : ∀ contractId, history.logs.countP (Log.settles contractId)
    = (history.world.htlc.contracts contractId).settlements
  existing : ∀ contractId, (history.world.htlc.contracts contractId).amount = 0 →
    (history.world.htlc.contracts contractId).settlements = 0

section

variable {τ : Type} {env : Env τ} {world after : World τ} {call : Call} {logs : List Log}

theorem inOrder_deployed (env : Env τ) (token : τ) : (History.deployed token).InOrder env := by
  have empty : ∀ contractId, (History.deployed token).world.htlc.contracts contractId = {} :=
    fun _ => rfl
  refine ⟨?_, fun _ => rfl, fun _ _ => rfl⟩
  intro contractId
  rw [empty]
  exact ⟨by decide, fun shown => absurd shown (by decide)⟩

theorem settlements_of_open {c : LockContract} (isOpen : c.Open) : c.settlements = 0 := by
  simp [LockContract.settlements, isOpen.notWithdrawn, isOpen.notRefunded]

variable {history : History τ} {contractId : Bytes32}

theorem History.InOrder.write {record : LockContract} (inOrder : history.InOrder env) (written :
      after.htlc.contracts = Function.update history.world.htlc.contracts contractId record)
    (exists_ : record.amount ≠ 0) (good : record.InOrder env) (here : logs.countP (Log.settles
      contractId) = record.settlements - (history.world.htlc.contracts contractId).settlements)
    (grows : (history.world.htlc.contracts contractId).settlements ≤ record.settlements)
    (elsewhere : ∀ id ≠ contractId, logs.countP (Log.settles id) = 0) :
    History.InOrder env ⟨after, history.logs ++ logs⟩ := by
  refine ⟨?_, ?_, ?_⟩
  · intro id
    rw [written]
    rcases eq_or_ne id contractId with rfl | other
    · rwa [Function.update_self]
    · rw [Function.update_of_ne other]
      exact inOrder.records id
  · intro id
    rw [List.countP_append, inOrder.logged, written]
    grind
  · intro id
    rw [written]
    rcases eq_or_ne id contractId with rfl | other
    · rw [Function.update_self]
      exact fun none_ => absurd none_ exists_
    · rw [Function.update_of_ne other]
      exact inOrder.existing id

theorem Effect.inOrder (effect : Effect env history.world call after logs)
    (inOrder : history.InOrder env) : History.InOrder env ⟨after, history.logs ++ logs⟩ := by
  cases effect with
  | opened contractId record fresh isOpen written received =>
    have none_ := inOrder.existing contractId fresh
    have zero := settlements_of_open isOpen
    refine inOrder.write written isOpen.exists_ ⟨by omega, ?_⟩ ?_ (by omega) ?_
    · intro shown
      exact absurd shown (by rw [isOpen.notWithdrawn]; decide)
    · rw [zero, none_]
      rfl
    · intro id other
      rfl
  | withdrawn contractId preimage isOpen nonzero early opens written paid =>
    have none_ := settlements_of_open isOpen
    have one : LockContract.settlements { history.world.htlc.contracts contractId with
        preimage, withdrawn := true } = 1 := by
      simp [LockContract.settlements, isOpen.notRefunded]
    refine inOrder.write written isOpen.exists_ ⟨le_of_eq one, fun _ => ⟨nonzero, opens.symm⟩⟩ ?_
      (by omega) ?_
    · rw [one, none_]
      simp [Log.settles]
    · intro id other
      simp [Log.settles, other.symm]
  | refunded contractId isOpen late written paid =>
    have none_ := settlements_of_open isOpen
    have one : LockContract.settlements { history.world.htlc.contracts contractId with
        refunded := true } = 1 := by
      simp [LockContract.settlements, isOpen.notWithdrawn]
    refine inOrder.write written isOpen.exists_ ⟨le_of_eq one, ?_⟩ ?_ (by omega) ?_
    · intro shown
      exact absurd shown (by rw [isOpen.notWithdrawn]; decide)
    · rw [one, none_]
      simp [Log.settles]
    · intro id other
      simp [Log.settles, other.symm]
  | tokenOnly same kept =>
    refine ⟨?_, ?_, ?_⟩
    · rw [same]
      exact inOrder.records
    · rw [same, List.append_nil]
      exact inOrder.logged
    · rw [same]
      exact inOrder.existing

theorem Effect.terms (effect : Effect env world call after logs)
    (exists_ : (world.htlc.contracts contractId).amount ≠ 0) :
    (after.htlc.contracts contractId).terms = (world.htlc.contracts contractId).terms := by
  have written : ∀ {id : Bytes32} {record : LockContract},
      after.htlc.contracts = Function.update world.htlc.contracts id record →
      (id = contractId → record.terms = (world.htlc.contracts contractId).terms) →
      (after.htlc.contracts contractId).terms = (world.htlc.contracts contractId).terms := by
    intro id record written same
    rw [written]
    grind
  cases effect with
  | opened id record fresh isOpen write received =>
    refine written write ?_
    rintro rfl
    exact absurd fresh exists_
  | withdrawn id preimage isOpen nonzero early opens write paid =>
    refine written write ?_
    rintro rfl
    rfl
  | refunded id isOpen late write paid =>
    refine written write ?_
    rintro rfl
    rfl
  | tokenOnly same kept => rw [same]

structure PaysInOrder (env : Env τ) (world : World τ) (call : Call) (after : World τ)
    (logs : List Log) : Prop where
  withdrawal : ∀ contractId preimage, .htlcWithdraw contractId preimage ∈ logs →
    let c := world.htlc.contracts contractId
    env.token.balanceOf after.token
        = moved (env.token.balanceOf world.token) env.self c.receiver c.amount.val ∧
      call.time < c.timelock ∧ preimage ≠ 0 ∧ env.sha256 (uint256Bytes preimage) = c.hashlock ∧
      (after.htlc.contracts contractId).withdrawn = true ∧
      (after.htlc.contracts contractId).preimage = preimage
  refund : ∀ contractId, .htlcRefund contractId ∈ logs →
    let c := world.htlc.contracts contractId
    env.token.balanceOf after.token
        = moved (env.token.balanceOf world.token) env.self c.sender c.amount.val ∧
      c.timelock ≤ call.time ∧ (after.htlc.contracts contractId).refunded = true
  only : env.token.balanceOf after.token env.self < env.token.balanceOf world.token env.self →
    ∃ contractId, logs.countP (Log.settles contractId) = 1

theorem Effect.paysInOrder (effect : Effect env world call after logs) :
    PaysInOrder env world call after logs := by
  cases effect with
  | opened contractId record fresh isOpen written received =>
    refine ⟨by simp, by simp, ?_⟩
    intro less
    omega
  | withdrawn contractId preimage isOpen nonzero early opens written paid =>
    refine ⟨?_, by simp, fun _ => ⟨contractId, by simp [Log.settles]⟩⟩
    intro id shown listed
    obtain ⟨rfl, rfl⟩ : id = contractId ∧ shown = preimage := by simpa using listed
    refine ⟨paid, early, nonzero, opens.symm, ?_, ?_⟩
    · rw [written, Function.update_self]
    · rw [written, Function.update_self]
  | refunded contractId isOpen late written paid =>
    refine ⟨by simp, ?_, fun _ => ⟨contractId, by simp [Log.settles]⟩⟩
    intro id listed
    obtain rfl : id = contractId := by simpa using listed
    refine ⟨paid, late, ?_⟩
    rw [written, Function.update_self]
  | tokenOnly same kept =>
    refine ⟨by simp, by simp, ?_⟩
    intro less
    omega

theorem terms_foldl (exact_ : env.token.Exact) {calls : List Call}
    (outside : ∀ call ∈ calls, call.Outside env.self)
    (exists_ : (history.world.htlc.contracts contractId).amount ≠ 0) :
    ((calls.foldl (History.step env) history).world.htlc.contracts contractId).terms
      = (history.world.htlc.contracts contractId).terms := by
  have meets : Runs.StepsMeet (History.step env) (fun _ call => call.Outside env.self) history
      calls := Runs.stepsMeet_of_forall outside
  refine meets.invariant (fun reached => (reached.world.htlc.contracts contractId).terms
    = (history.world.htlc.contracts contractId).terms) ?_ rfl
  intro reached call same outside
  have amount : (reached.world.htlc.contracts contractId).amount
      = (history.world.htlc.contracts contractId).amount := congrArg (·.2.2.1) same
  unfold History.step
  split
  next world logs ok =>
    rw [← same]
    exact (exec_effect exact_ outside ok).terms (by rw [amount]; exact exists_)
  · exact same

end

/-- **Settlement safety.**  With a standard token and whatever the other accounts call, at
whatever times: every record is settled at most once and never both ways, and a withdrawn one
shows the preimage of its hashlock; every successful call of the sequence pays in order; and the
terms of a record stay what they were when it was opened. -/
theorem htlc_settlement_safe {τ : Type} (env : Env τ) (exact_ : env.token.Exact) (token : τ)
    (calls : List Call) (outside : ∀ call ∈ calls, call.Outside env.self) :
    (∀ contractId,
      let c := (run env token calls).world.htlc.contracts contractId
      (run env token calls).logs.countP (Log.settles contractId) ≤ 1 ∧
        ¬(c.withdrawn = true ∧ c.refunded = true) ∧
        (c.withdrawn = true →
          c.preimage ≠ 0 ∧ env.sha256 (uint256Bytes c.preimage) = c.hashlock)) ∧
    (∀ done call rest, calls = done ++ call :: rest → ∀ after logs,
      exec env (run env token done).world call = .ok (after, logs) →
        PaysInOrder env (run env token done).world call after logs) ∧
    (∀ done rest, calls = done ++ rest → ∀ contractId,
      ((run env token done).world.htlc.contracts contractId).amount ≠ 0 →
        ((run env token calls).world.htlc.contracts contractId).terms
          = ((run env token done).world.htlc.contracts contractId).terms) := by
  have inOrder : (run env token calls).InOrder env := by
    refine run_invariant exact_ outside (History.InOrder env) (inOrder_deployed env token) ?_
    intro history call after logs effect before
    exact effect.inOrder before
  refine ⟨?_, ?_, ?_⟩
  · intro contractId c
    have good := inOrder.records contractId
    refine ⟨?_, ?_, good.shown⟩
    · rw [inOrder.logged]
      exact good.once
    · rintro ⟨withdrawn, refunded⟩
      have once := good.once
      simp only [LockContract.settlements, c] at once withdrawn refunded
      rw [withdrawn, refunded] at once
      exact absurd once (by decide)
  · rintro done call rest rfl after logs ok
    exact (exec_effect exact_ (outside call (by simp)) ok).paysInOrder
  · grind [run, List.foldl_append, terms_foldl]

/-- In the sample run the one record is opened and withdrawn, the refund reverts, and the
receiver has the tokens. -/
theorem htlc_settlement_safe_sample :
    (run sampleEnv sampleLedger sampleCalls).logs.countP (Log.settles sampleId) ≤ 1 ∧
      (run sampleEnv sampleLedger sampleCalls).logs
        = [.htlcInitiate sampleId 2 3 40 (digitHash (uint256Bytes 77)) 10000,
          .htlcWithdraw sampleId 77] ∧
      ledgerToken.balanceOf (run sampleEnv sampleLedger sampleCalls).world.token 3 = 40 := by
  refine ⟨?_, ?_, ?_⟩
  · exact ((htlc_settlement_safe sampleEnv exact_ledgerToken sampleLedger sampleCalls
      sampleCalls_outside).1 sampleId).1
  · decide +kernel
  · decide +kernel

end QuantBTC.Htlc
