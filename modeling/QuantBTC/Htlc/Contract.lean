/-
# Htlc.Contract -- the hash time lock contract of the EVM leg

`QBTCUSDCHTLC.sol`: a buyer locks tokens under `sha256(preimage)`; the receiver takes them
with the preimage before the timelock, or the sender gets them back after it.

A call is atomic: it runs to its end or reverts and leaves no trace.  `uint256` and
`bytes32` are numbers below `2 ^ 256`, checked arithmetic reverts.  `keccak256` and
`sha256` are parameters, and so is the token, of which `Erc20.Exact` says what a token
without fees and rebasing does: it moves exactly the amount or reverts.  Such a token does
not call back, so the reentrancy guard of the source never refuses a call; it is left out.
-/
import QuantBTC.Primitives.Bytes

namespace QuantBTC.Htlc

set_option autoImplicit false

open Primitives

abbrev Address := Fin (2 ^ 160)

instance neZero_address : NeZero (2 ^ 160) := inferInstance

abbrev Word := Fin (2 ^ 256)

abbrev Bytes32 := Uint256

def checkedAdd (a b : Word) : Option Word :=
  if fits : a.val + b.val < 2 ^ 256 then some ⟨a.val + b.val, fits⟩ else none

def minLocktime : Word := 3600

/-! ## Storage -/

structure LockContract where
  sender : Address := 0
  receiver : Address := 0
  amount : Word := 0
  hashlock : Bytes32 := 0
  timelock : Word := 0
  withdrawn : Bool := false
  refunded : Bool := false
  preimage : Bytes32 := 0
deriving DecidableEq, Repr

structure Storage where
  nonces : Address → Word := fun _ => 0
  contracts : Bytes32 → LockContract := fun _ => {}

inductive HtlcError where
  | contractNotFound (contractId : Bytes32)
  | alreadyWithdrawn (contractId : Bytes32)
  | alreadyRefunded (contractId : Bytes32)
  | hashlockMismatch (contractId : Bytes32)
  | preimageIsZero
  | timelockNotExpired (contractId : Bytes32)
  | timelockExpired (contractId : Bytes32)
  | timelockTooShort (provided minimum : Word)
  | zeroReceiver
  | zeroAmount
  | contractIdCollision
  | overflow
  | tokenReverted
deriving DecidableEq, Repr

inductive Log where
  | htlcInitiate (contractId : Bytes32) (sender receiver : Address) (amount : Word)
      (hashlock : Bytes32) (timelock : Word)
  | htlcWithdraw (contractId preimage : Bytes32)
  | htlcRefund (contractId : Bytes32)
deriving DecidableEq, Repr

/-! ## The token -/

structure Erc20 (τ : Type) where
  balanceOf : τ → Address → Nat
  transfer : τ → (caller recipient : Address) → (amount : Word) → Option τ
  transferFrom : τ → (caller owner recipient : Address) → (amount : Word) → Option τ
  approve : τ → (caller spender : Address) → (amount : Word) → Option τ
  permit : τ → (now : Word) → (owner spender : Address) → (value deadline : Word) → (v : UInt8) →
    (r s : Bytes32) → Option τ

def moved (balances : Address → Nat) (owner recipient : Address) (amount : Nat) : Address → Nat :=
  let debited := Function.update balances owner (balances owner - amount)
  Function.update debited recipient (debited recipient + amount)

structure Erc20.Exact {τ : Type} (token : Erc20 τ) : Prop where
  transfer_moves : ∀ {t t' : τ} {caller recipient : Address} {amount : Word},
    token.transfer t caller recipient amount = some t' →
      amount.val ≤ token.balanceOf t caller ∧
        token.balanceOf t' = moved (token.balanceOf t) caller recipient amount.val
  transferFrom_moves : ∀ {t t' : τ} {caller owner recipient : Address} {amount : Word},
    token.transferFrom t caller owner recipient amount = some t' →
      amount.val ≤ token.balanceOf t owner ∧
        token.balanceOf t' = moved (token.balanceOf t) owner recipient amount.val
  approve_keeps : ∀ {t t' : τ} {caller spender : Address} {amount : Word},
    token.approve t caller spender amount = some t' → token.balanceOf t' = token.balanceOf t
  permit_keeps : ∀ {t t' : τ} {now : Word} {owner spender : Address} {value deadline : Word}
    {v : UInt8} {r s : Bytes32}, token.permit t now owner spender value deadline v r s = some t' →
      token.balanceOf t' = token.balanceOf t

/-! ## The functions -/

structure Env (τ : Type) where
  self : Address
  keccak256 : Bytes → Bytes32
  sha256 : Bytes → Bytes32
  token : Erc20 τ

structure World (τ : Type) where
  htlc : Storage := {}
  token : τ

section

variable {τ : Type} (env : Env τ) (world : World τ) (now : Word)

def encodeId (sender receiver : Address) (amount : Word) (hashlock : Bytes32)
    (timelock nonce : Word) : Bytes :=
  (leBytes 20 sender.val).reverse ++ (leBytes 20 receiver.val).reverse ++ uint256Bytes amount ++
    uint256Bytes hashlock ++ uint256Bytes timelock ++ uint256Bytes nonce

def initiateInternal (sender receiver : Address) (hashlock : Bytes32) (timelock amount : Word) :
    Except HtlcError (Bytes32 × World τ × Log) :=
  if receiver = 0 then .error .zeroReceiver
  else if amount = 0 then .error .zeroAmount
  else match checkedAdd now minLocktime with
  | none => .error .overflow
  | some earliest =>
    if timelock < earliest then
      .error (.timelockTooShort (if timelock > now then timelock - now else 0) minLocktime)
    else
      let nonce := world.htlc.nonces sender
      match checkedAdd nonce 1 with
      | none => .error .overflow
      | some incremented =>
        let contractId := env.keccak256 (encodeId sender receiver amount hashlock timelock nonce)
        if (world.htlc.contracts contractId).amount ≠ 0 then .error .contractIdCollision
        else
          let htlc : Storage :=
            { nonces := Function.update world.htlc.nonces sender incremented
              contracts := Function.update world.htlc.contracts contractId
                { sender, receiver, amount, hashlock, timelock } }
          match env.token.transferFrom world.token env.self sender env.self amount with
          | none => .error .tokenReverted
          | some token =>
            .ok (contractId, ⟨htlc, token⟩,
              .htlcInitiate contractId sender receiver amount hashlock timelock)

def initiate (msgSender receiver : Address) (hashlock : Bytes32) (timelock amount : Word) :
    Except HtlcError (Bytes32 × World τ × Log) :=
  initiateInternal env world now msgSender receiver hashlock timelock amount

def initiateWithPermit (msgSender receiver : Address) (hashlock : Bytes32)
    (timelock amount deadline : Word) (v : UInt8) (r s : Bytes32) :
    Except HtlcError (Bytes32 × World τ × Log) :=
  match env.token.permit world.token now msgSender env.self amount deadline v r s with
  | none => .error .tokenReverted
  | some token =>
    initiateInternal env { world with token } now msgSender receiver hashlock timelock amount

def withdraw (contractId preimage : Bytes32) : Except HtlcError (World τ × Log) :=
  let c := world.htlc.contracts contractId
  if c.amount = 0 then .error (.contractNotFound contractId)
  else if c.withdrawn then .error (.alreadyWithdrawn contractId)
  else if c.refunded then .error (.alreadyRefunded contractId)
  else if preimage = 0 then .error .preimageIsZero
  else if now ≥ c.timelock then .error (.timelockExpired contractId)
  else if c.hashlock ≠ env.sha256 (uint256Bytes preimage) then
    .error (.hashlockMismatch contractId)
  else
    let contracts :=
      Function.update world.htlc.contracts contractId { c with preimage, withdrawn := true }
    match env.token.transfer world.token env.self c.receiver c.amount with
    | none => .error .tokenReverted
    | some token => .ok (⟨{ world.htlc with contracts }, token⟩, .htlcWithdraw contractId preimage)

def refund (contractId : Bytes32) : Except HtlcError (World τ × Log) :=
  let c := world.htlc.contracts contractId
  if c.amount = 0 then .error (.contractNotFound contractId)
  else if c.withdrawn then .error (.alreadyWithdrawn contractId)
  else if c.refunded then .error (.alreadyRefunded contractId)
  else if now < c.timelock then .error (.timelockNotExpired contractId)
  else
    let contracts :=
      Function.update world.htlc.contracts contractId { c with refunded := true }
    match env.token.transfer world.token env.self c.sender c.amount with
    | none => .error .tokenReverted
    | some token => .ok (⟨{ world.htlc with contracts }, token⟩, .htlcRefund contractId)

end

/-! ## What a successful call does -/

section

variable {τ : Type} {env : Env τ} {world after : World τ} {now : Word} {log : Log}

theorem initiateInternal_ok {sender receiver : Address} {hashlock contractId : Bytes32}
    {timelock amount : Word}
    (ok : initiateInternal env world now sender receiver hashlock timelock amount
      = .ok (contractId, after, log)) :
    amount ≠ 0 ∧ (world.htlc.contracts contractId).amount = 0 ∧
      after.htlc.contracts = Function.update world.htlc.contracts contractId
        { sender, receiver, amount, hashlock, timelock } ∧
      env.token.transferFrom world.token env.self sender env.self amount = some after.token ∧
      log = .htlcInitiate contractId sender receiver amount hashlock timelock := by
  unfold initiateInternal at ok
  split at ok
  · cases ok
  split at ok
  all_goals grind

structure LockContract.Open (c : LockContract) : Prop where
  exists_ : c.amount ≠ 0
  notWithdrawn : c.withdrawn = false
  notRefunded : c.refunded = false

theorem withdraw_ok {contractId preimage : Bytes32}
    (ok : withdraw env world now contractId preimage = .ok (after, log)) :
    let c := world.htlc.contracts contractId
    c.Open ∧ preimage ≠ 0 ∧ now < c.timelock ∧ c.hashlock = env.sha256 (uint256Bytes preimage) ∧
      after.htlc.contracts = Function.update world.htlc.contracts contractId
        { c with preimage, withdrawn := true } ∧
      env.token.transfer world.token env.self c.receiver c.amount = some after.token ∧
      log = .htlcWithdraw contractId preimage := by
  unfold withdraw at ok
  dsimp only at ok ⊢
  split at ok
  · cases ok
  next exists_ =>
    split at ok
    · cases ok
    next notWithdrawn =>
      split at ok
      · cases ok
      next notRefunded =>
        split at ok
        · cases ok
        next nonzero =>
          split at ok
          · cases ok
          next early =>
            split at ok
            · cases ok
            next opens =>
              split at ok
              · cases ok
              next token paid =>
                cases ok
                exact ⟨⟨exists_, Bool.eq_false_iff.mpr notWithdrawn,
                  Bool.eq_false_iff.mpr notRefunded⟩, nonzero, not_le.mp early, not_not.mp opens,
                  rfl, paid, rfl⟩

theorem refund_ok {contractId : Bytes32}
    (ok : refund env world now contractId = .ok (after, log)) :
    let c := world.htlc.contracts contractId
    c.Open ∧ c.timelock ≤ now ∧
      after.htlc.contracts = Function.update world.htlc.contracts contractId
        { c with refunded := true } ∧
      env.token.transfer world.token env.self c.sender c.amount = some after.token ∧
      log = .htlcRefund contractId := by
  unfold refund at ok
  dsimp only at ok ⊢
  split at ok
  · cases ok
  next exists_ =>
    split at ok
    · cases ok
    next notWithdrawn =>
      split at ok
      · cases ok
      next notRefunded =>
        split at ok
        · cases ok
        next late =>
          split at ok
          · cases ok
          next token paid =>
            cases ok
            exact ⟨⟨exists_, Bool.eq_false_iff.mpr notWithdrawn,
              Bool.eq_false_iff.mpr notRefunded⟩, not_lt.mp late, rfl, paid, rfl⟩

end

end QuantBTC.Htlc
