/-
# Htlc.Independence -- the records do not meet, and none is stuck

The identifier of a record is the hash of its terms and of a nonce that `_initiate` takes from a
counter of the sender.  The counters only grow, so a run packs no string twice, and where
`keccak256` has no collision among the packed strings no identifier comes back.
-/
import QuantBTC.Htlc.Settlement

namespace QuantBTC.Htlc

set_option autoImplicit false

open Primitives Theory

/-! ## Identifiers -/

def packedId (nonces : Address → Word) (call : Call) : Option Bytes :=
  match call.action with
  | .initiate receiver hashlock timelock amount =>
    some (encodeId call.caller receiver amount hashlock timelock (nonces call.caller))
  | .initiateWithPermit receiver hashlock timelock amount _ _ _ _ =>
    some (encodeId call.caller receiver amount hashlock timelock (nonces call.caller))
  | _ => none

def packedIds {τ : Type} (env : Env τ) (token : τ) (calls : List Call) : List Bytes :=
  Runs.gathered (History.step env)
    (fun history call => (packedId history.world.htlc.nonces call).toList) (.deployed token) calls

def Call.contractId {τ : Type} (env : Env τ) (world : World τ) (call : Call) : Option Bytes32 :=
  match call.action with
  | .withdraw contractId _ => some contractId
  | .refund contractId => some contractId
  | _ => (packedId world.htlc.nonces call).map env.keccak256

def Log.opens : Log → Option Bytes32
  | .htlcInitiate contractId .. => some contractId
  | _ => none

def History.ids {τ : Type} (history : History τ) : List Bytes32 := history.logs.filterMap Log.opens

theorem encodeId_inj {sender sender' receiver receiver' : Address} {amount amount' : Word}
    {hashlock hashlock' : Bytes32} {timelock timelock' nonce nonce' : Word}
    (same : encodeId sender receiver amount hashlock timelock nonce
      = encodeId sender' receiver' amount' hashlock' timelock' nonce') :
    sender = sender' ∧ nonce = nonce' := by
  have split := List.append_inj' same (by rw [length_uint256Bytes, length_uint256Bytes])
  refine ⟨?_, uint256Bytes_injective split.2⟩
  have front : (leBytes 20 sender.val).reverse = (leBytes 20 sender'.val).reverse := by
    have heads := congrArg (List.take 20) split.1
    simpa [List.append_assoc] using heads
  have digits := congrArg ofLeBytes (List.reverse_injective front)
  rw [ofLeBytes_leBytes (lt_of_lt_of_eq sender.isLt (by decide)),
    ofLeBytes_leBytes (lt_of_lt_of_eq sender'.isLt (by decide))] at digits
  exact Fin.ext digits

/-! ## What a call writes -/

section

variable {τ : Type} {env : Env τ} {world after : World τ} {call : Call} {logs : List Log}

inductive Stored (env : Env τ) (before : Storage) (call : Call) (after : Storage) :
    List Log → Prop
  | opened (input : Bytes) (record : LockContract) (next : Word) (log : Log)
      (packed : packedId before.nonces call = some input)
      (counted : checkedAdd (before.nonces call.caller) 1 = some next)
      (nonces : after.nonces = Function.update before.nonces call.caller next)
      (written : after.contracts
        = Function.update before.contracts (env.keccak256 input) record)
      (opens : log.opens = some (env.keccak256 input)) : Stored env before call after [log]
  | settled (contractId : Bytes32) (record : LockContract) (log : Log)
      (own : ∀ world : World τ, call.contractId env world = some contractId)
      (nonces : after.nonces = before.nonces)
      (written : after.contracts = Function.update before.contracts contractId record)
      (amount : record.amount = (before.contracts contractId).amount)
      (opens : log.opens = none) : Stored env before call after [log]
  | untouched (same : after = before) : Stored env before call after []

variable {contractId : Bytes32} {log : Log}

theorem initiateInternal_stored {now : Word} {sender receiver : Address} {hashlock : Bytes32}
    {timelock amount : Word} (ok : initiateInternal env world now sender receiver hashlock timelock
      amount = .ok (contractId, after, log)) :
    ∃ next, checkedAdd (world.htlc.nonces sender) 1 = some next ∧
      after.htlc.nonces = Function.update world.htlc.nonces sender next ∧
      contractId = env.keccak256
        (encodeId sender receiver amount hashlock timelock (world.htlc.nonces sender)) := by
  unfold initiateInternal at ok
  split at ok
  · cases ok
  split at ok
  all_goals grind

theorem initiateInternal_collision {now : Word} {sender receiver : Address} {hashlock : Bytes32}
    {timelock amount : Word}
    (failed : initiateInternal env world now sender receiver hashlock timelock amount
      = .error .contractIdCollision) :
    (world.htlc.contracts (env.keccak256 (encodeId sender receiver amount hashlock timelock
      (world.htlc.nonces sender)))).amount ≠ 0 := by
  unfold initiateInternal at failed
  split at failed
  · cases failed
  split at failed
  all_goals grind

theorem withdraw_nonces {now : Word} {preimage : Bytes32}
    (ok : withdraw env world now contractId preimage = .ok (after, log)) :
    after.htlc.nonces = world.htlc.nonces := by
  unfold withdraw at ok
  grind

theorem refund_nonces {now : Word} (ok : refund env world now contractId = .ok (after, log)) :
    after.htlc.nonces = world.htlc.nonces := by
  unfold refund at ok
  grind

theorem map_error {ε α β : Type} {f : α → β} {result : Except ε α} {failure : ε}
    (failed : result.map f = .error failure) : result = .error failure := by
  cases result with
  | error _ => exact congrArg _ (Except.error.inj failed)
  | ok value => cases failed

theorem opened_of_initiateInternal {token : τ} {receiver : Address} {hashlock : Bytes32}
    {timelock amount : Word} (packed : packedId world.htlc.nonces call = some (encodeId call.caller
      receiver amount hashlock timelock (world.htlc.nonces call.caller))) (ok : initiateInternal env
      { world with token } call.time call.caller receiver hashlock timelock amount = .ok
      (contractId, after, log)) : Stored env world.htlc call after.htlc [log] := by
  obtain ⟨-, -, written, -, rfl⟩ := initiateInternal_ok ok
  obtain ⟨next, counted, nonces, rfl⟩ := initiateInternal_stored ok
  exact .opened _ _ next _ packed counted nonces written rfl

theorem stored_of_afterToken {result : Option τ}
    (ok : afterToken world result = .ok (after, logs)) :
    Stored env world.htlc call after.htlc logs := by
  cases result with
  | none => cases ok
  | some token =>
    cases ok
    exact .untouched rfl

theorem exec_stored (ok : exec env world call = .ok (after, logs)) :
    Stored env world.htlc call after.htlc logs := by
  obtain ⟨caller, time, action⟩ := call
  cases action with
  | initiate receiver hashlock timelock amount =>
    obtain ⟨⟨contractId, result, log⟩, opened, same⟩ := map_ok ok
    cases same
    exact opened_of_initiateInternal rfl opened
  | initiateWithPermit receiver hashlock timelock amount deadline v r s =>
    obtain ⟨⟨contractId, result, log⟩, opened, same⟩ := map_ok ok
    cases same
    unfold initiateWithPermit at opened
    split at opened
    · cases opened
    · exact opened_of_initiateInternal rfl opened
  | withdraw contractId preimage =>
    obtain ⟨⟨result, log⟩, withdrawn, same⟩ := map_ok ok
    cases same
    obtain ⟨-, -, -, -, written, -, rfl⟩ := withdraw_ok withdrawn
    exact .settled contractId _ _ (fun _ => rfl) (withdraw_nonces withdrawn) written rfl rfl
  | refund contractId =>
    obtain ⟨⟨result, log⟩, refunded, same⟩ := map_ok ok
    cases same
    obtain ⟨-, -, written, -, rfl⟩ := refund_ok refunded
    exact .settled contractId _ _ (fun _ => rfl) (refund_nonces refunded) written rfl rfl
  | transfer recipient amount => exact stored_of_afterToken ok
  | transferFrom owner recipient amount => exact stored_of_afterToken ok
  | approve spender amount => exact stored_of_afterToken ok

theorem afterToken_ne_collision (world : World τ) (result : Option τ) :
    afterToken world result ≠ .error .contractIdCollision := by
  cases result <;> simp [afterToken]

theorem exec_collision (failed : exec env world call = .error .contractIdCollision) :
    ∃ input, packedId world.htlc.nonces call = some input ∧
      (world.htlc.contracts (env.keccak256 input)).amount ≠ 0 := by
  obtain ⟨caller, time, action⟩ := call
  cases action with
  | initiate receiver hashlock timelock amount =>
    exact ⟨_, rfl, initiateInternal_collision (map_error failed)⟩
  | initiateWithPermit receiver hashlock timelock amount deadline v r s =>
    have inner := map_error failed
    unfold initiateWithPermit at inner
    split at inner
    · cases inner
    · have used := initiateInternal_collision inner
      exact ⟨_, rfl, used⟩
  | withdraw contractId preimage =>
    have inner := map_error failed
    unfold withdraw at inner
    grind
  | refund contractId =>
    have inner := map_error failed
    unfold refund at inner
    grind
  | transfer recipient amount => exact absurd failed (afterToken_ne_collision world _)
  | transferFrom owner recipient amount => exact absurd failed (afterToken_ne_collision world _)
  | approve spender amount => exact absurd failed (afterToken_ne_collision world _)

variable {input : Bytes}

theorem contractId_of_packed (packed : packedId world.htlc.nonces call = some input) :
    call.contractId env world = some (env.keccak256 input) := by
  obtain ⟨caller, time, action⟩ := call
  cases action <;> cases packed <;> rfl

theorem Stored.frame (stored : Stored env world.htlc call after.htlc logs)
    (other : call.contractId env world ≠ some contractId) :
    after.htlc.contracts contractId = world.htlc.contracts contractId := by
  cases stored with
  | opened input record next log packed counted nonces written opens =>
    rw [written, Function.update_of_ne]
    rintro rfl
    exact other (contractId_of_packed packed)
  | settled own record log target nonces written amount opens =>
    rw [written, Function.update_of_ne]
    rintro rfl
    exact other (target world)
  | untouched same => rw [same]

/-! ## The nonces -/

structure History.Numbered (env : Env τ) (hashed : List Bytes) (history : History τ) : Prop where
  distinct : history.ids.Nodup
  counted : ∀ contractId ∈ history.ids, ∃ sender receiver amount hashlock timelock nonce,
    contractId = env.keccak256 (encodeId sender receiver amount hashlock timelock nonce) ∧
      encodeId sender receiver amount hashlock timelock nonce ∈ hashed ∧
      nonce < history.world.htlc.nonces sender
  existing : ∀ contractId, (history.world.htlc.contracts contractId).amount ≠ 0 →
    contractId ∈ history.ids

theorem packedId_eq_some {nonces : Address → Word} (packed : packedId nonces call = some input) :
    ∃ receiver amount hashlock timelock,
      input = encodeId call.caller receiver amount hashlock timelock (nonces call.caller) := by
  unfold packedId at packed
  split at packed <;> cases packed <;> exact ⟨_, _, _, _, rfl⟩

theorem lt_of_checkedAdd_one {nonce next : Word} (counted : checkedAdd nonce 1 = some next) :
    nonce < next := by
  unfold checkedAdd at counted
  split at counted
  · cases counted
    exact Nat.lt_succ_self nonce.val
  · cases counted

theorem History.Numbered.fresh {hashed : List Bytes} {history : History τ}
    (numbered : history.Numbered env hashed)
    (noCollision : Set.InjOn env.keccak256 {input | input ∈ hashed})
    (packed : packedId history.world.htlc.nonces call = some input) (listed : input ∈ hashed) :
    env.keccak256 input ∉ history.ids := by
  intro used
  obtain ⟨sender, receiver, amount, hashlock, timelock, nonce, same, earlier, below⟩ :=
    numbered.counted _ used
  obtain ⟨_, _, _, _, rfl⟩ := packedId_eq_some packed
  obtain ⟨rfl, rfl⟩ := encodeId_inj (noCollision listed earlier same)
  exact absurd below (lt_irrefl _)

theorem History.Numbered.step {hashed : List Bytes} {history : History τ}
    (numbered : history.Numbered env hashed)
    (noCollision : Set.InjOn env.keccak256 {input | input ∈ hashed})
    (listed : ∀ input, packedId history.world.htlc.nonces call = some input → input ∈ hashed) :
    (history.step env call).Numbered env hashed := by
  unfold History.step
  split
  case h_2 => exact numbered
  case h_1 after logs ok =>
    cases exec_stored ok with
    | opened input record next log packed counted nonces written opens =>
      have ids : History.ids ⟨after, history.logs ++ [log]⟩
          = history.ids ++ [env.keccak256 input] := by
        simp [History.ids, opens]
      have fresh := numbered.fresh noCollision packed (listed input packed)
      have grows : ∀ sender, history.world.htlc.nonces sender ≤ after.htlc.nonces sender := by
        intro sender
        rw [nonces]
        rcases eq_or_ne sender call.caller with rfl | other
        · rw [Function.update_self]
          exact (lt_of_checkedAdd_one counted).le
        · rw [Function.update_of_ne other]
      refine ⟨?_, ?_, ?_⟩
      · rw [ids]
        exact List.nodup_append.mpr ⟨numbered.distinct, List.nodup_singleton _, by
          rintro id old _ new rfl
          exact fresh (List.mem_singleton.mp new ▸ old)⟩
      · intro contractId known
        rw [ids, List.mem_append, List.mem_singleton] at known
        rcases known with old | rfl
        · obtain ⟨sender, receiver, amount, hashlock, timelock, nonce, same, earlier, below⟩ :=
            numbered.counted contractId old
          exact ⟨sender, receiver, amount, hashlock, timelock, nonce, same, earlier,
            lt_of_lt_of_le below (grows sender)⟩
        · obtain ⟨receiver, amount, hashlock, timelock, rfl⟩ := packedId_eq_some packed
          refine ⟨_, _, _, _, _, _, rfl, listed _ packed, ?_⟩
          rw [nonces, Function.update_self]
          exact lt_of_checkedAdd_one counted
      · intro contractId exists_
        rw [ids, List.mem_append, List.mem_singleton]
        by_cases own : contractId = env.keccak256 input
        · exact .inr own
        · rw [written, Function.update_of_ne own] at exists_
          exact .inl (numbered.existing contractId exists_)
    | settled own record log target nonces written amount opens =>
      have ids : History.ids ⟨after, history.logs ++ [log]⟩ = history.ids := by
        simp [History.ids, opens]
      refine ⟨by rw [ids]; exact numbered.distinct, ?_, ?_⟩
      · rw [ids, nonces]
        exact numbered.counted
      · intro contractId exists_
        rw [ids]
        refine numbered.existing contractId ?_
        rw [written] at exists_
        rcases eq_or_ne contractId own with rfl | other
        · rwa [Function.update_self, amount] at exists_
        · rwa [Function.update_of_ne other] at exists_
    | untouched same =>
      have ids : History.ids ⟨after, history.logs ++ []⟩ = history.ids := by
        simp [History.ids]
      exact ⟨by rw [ids]; exact numbered.distinct, by rw [ids, same]; exact numbered.counted,
        by rw [ids, same]; exact numbered.existing⟩

theorem numbered_deployed (hashed : List Bytes) (token : τ) :
    (History.deployed token).Numbered env hashed where
  distinct := List.nodup_nil
  counted := by simp [History.ids, History.deployed]
  existing contractId exists_ := absurd rfl exists_

/-! ## Settling an open record -/

def World.Settles (env : Env τ) (world : World τ) (contractId : Bytes32) : Prop :=
  let c := world.htlc.contracts contractId
  ∀ (caller : Address) (now : Word),
    (now < c.timelock →
      (∀ preimage, preimage ≠ 0 → env.sha256 (uint256Bytes preimage) = c.hashlock →
        (env.token.transfer world.token env.self c.receiver c.amount).isSome →
          (exec env world ⟨caller, now, .withdraw contractId preimage⟩).isOk) ∧
      exec env world ⟨caller, now, .refund contractId⟩ = .error (.timelockNotExpired contractId)) ∧
    (c.timelock ≤ now →
      ((env.token.transfer world.token env.self c.sender c.amount).isSome →
        (exec env world ⟨caller, now, .refund contractId⟩).isOk) ∧
      ∀ preimage, (exec env world ⟨caller, now, .withdraw contractId preimage⟩).isOk = false)

theorem LockContract.Open.settles (isOpen : (world.htlc.contracts contractId).Open) :
    world.Settles env contractId := by
  obtain ⟨exists_, notWithdrawn, notRefunded⟩ := isOpen
  intro caller now
  constructor
  · intro early
    constructor
    · intro preimage nonzero opens pays
      obtain ⟨token, paid⟩ := Option.isSome_iff_exists.mp pays
      simp [exec, withdraw, exists_, notWithdrawn, notRefunded, nonzero, not_le.mpr early, opens,
        paid, Except.map, Except.isOk, Except.toBool]
    · simp [exec, refund, exists_, notWithdrawn, notRefunded, early, Except.map]
  · intro late
    constructor
    · intro pays
      obtain ⟨token, paid⟩ := Option.isSome_iff_exists.mp pays
      simp [exec, refund, exists_, notWithdrawn, notRefunded, not_lt.mpr late, paid, Except.map,
        Except.isOk, Except.toBool]
    · intro preimage
      by_cases zero : preimage = 0 <;>
        simp [exec, withdraw, exists_, notWithdrawn, notRefunded, zero, late, Except.map,
          Except.isOk, Except.toBool]

end

structure Call.Independent {τ : Type} (env : Env τ) (history : History τ) (call : Call) : Prop where
  noCollision : exec env history.world call ≠ .error .contractIdCollision
  frame : ∀ after logs, exec env history.world call = .ok (after, logs) →
    ∀ contractId, call.contractId env history.world ≠ some contractId →
      after.htlc.contracts contractId = history.world.htlc.contracts contractId

/-- **Records are independent and never stuck**, in every run in which `keccak256` has no collision
among the strings packed, whatever the token: the identifiers returned are distinct, no call
finds its identifier taken or changes another record, and every open record can be settled. -/
theorem htlc_records_independent {τ : Type} (env : Env τ) (token : τ) (calls : List Call)
    (noCollision : Set.InjOn env.keccak256 {input | input ∈ packedIds env token calls}) :
    (run env token calls).ids.Nodup ∧
      Runs.StepsMeet (History.step env) (fun history call => call.Independent env history)
        (.deployed token) calls ∧
      ∀ contractId, ((run env token calls).world.htlc.contracts contractId).Open →
        (run env token calls).world.Settles env contractId := by
  have listed : Runs.StepsMeet (History.step env) (fun history call =>
      ∀ input ∈ (packedId history.world.htlc.nonces call).toList,
        input ∈ packedIds env token calls) (.deployed token) calls :=
    Runs.stepsMeet_gathered _ fun _ here => here
  have keeps : ∀ (history : History τ) (call : Call),
      history.Numbered env (packedIds env token calls) →
      (∀ input ∈ (packedId history.world.htlc.nonces call).toList,
        input ∈ packedIds env token calls) →
      (history.step env call).Numbered env (packedIds env token calls) :=
    fun history call numbered packed => numbered.step noCollision fun input here =>
      packed input (Option.mem_toList.mpr here)
  refine ⟨?_, ?_, ?_⟩
  · exact (listed.invariant _ keeps (numbered_deployed _ token)).distinct
  · refine listed.imp _ keeps ?_ (numbered_deployed _ token)
    intro history call numbered packed
    refine ⟨?_, fun after logs ok contractId other => (exec_stored ok).frame other⟩
    intro failed
    obtain ⟨input, here, taken⟩ := exec_collision failed
    exact numbered.fresh noCollision here (packed input (Option.mem_toList.mpr here))
      (numbered.existing _ taken)
  · exact fun contractId isOpen => isOpen.settles

def twinCalls : List Call :=
  [⟨2, 1000, .approve 1 80⟩,
    ⟨2, 1000, .initiate 3 (digitHash (uint256Bytes 77)) 10000 40⟩,
    ⟨2, 1000, .initiate 3 (digitHash (uint256Bytes 77)) 10000 40⟩]

/-- Both records exist, and the first can be withdrawn in time. -/
theorem htlc_records_independent_twins :
    (run sampleEnv sampleLedger twinCalls).ids.Nodup ∧
      (run sampleEnv sampleLedger twinCalls).ids.length = 2 ∧
      (exec sampleEnv (run sampleEnv sampleLedger twinCalls).world
        ⟨4, 2000, .withdraw sampleId 77⟩).isOk := by
  have independent := htlc_records_independent sampleEnv sampleLedger twinCalls
    fun _ left _ right same => List.inj_on_of_nodup_map (by decide +kernel) left right same
  refine ⟨independent.1, by decide +kernel, ?_⟩
  have settles := independent.2.2 sampleId ⟨by decide +kernel, by decide +kernel, by decide +kernel⟩
  exact ((settles 4 2000).1 (by decide +kernel)).1 77 (by decide) (by decide +kernel)
    (by decide +kernel)

end QuantBTC.Htlc
