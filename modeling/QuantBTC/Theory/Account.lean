/-
# Theory.Account -- an account that is paid out in two steps

What an account has earned is due until it is paid.  A payment first leaves the pool of
money and is then settled, that is, taken off what is due; in between it is unsettled.
`Sound` says that what was paid and what is due make up what was earned and what is
unsettled, and that no more is unsettled than is due.

`tally` adds up the entries of a list that stand under one key.
-/
import Mathlib

namespace QuantBTC.Theory

set_option autoImplicit false

/-! ## Sums by key -/

section Tally

variable {ε κ α : Type} [DecidableEq κ] [AddCommMonoid α]

def tally (key : ε → κ) (amount : ε → α) (entries : List ε) (k : κ) : α :=
  ((entries.filter fun entry => key entry = k).map amount).sum

variable {key : ε → κ} {amount : ε → α}

theorem tally_cons (entry : ε) (entries : List ε) (k : κ) :
    tally key amount (entry :: entries) k =
      (if key entry = k then amount entry else 0) + tally key amount entries k := by
  unfold tally
  by_cases same : key entry = k
  · simp [same]
  · simp [same]

end Tally

/-! ## The account -/

structure Account (α : Type) where
  /-- All that was ever earned. -/
  earned : α
  /-- What is still to be paid, as the books say. -/
  due : α
  /-- All that has left the pool of money. -/
  paid : α
  /-- What has left and is not yet taken off `due`. -/
  unsettled : α

namespace Account

variable {α : Type} [AddCommGroup α] [LinearOrder α]

def earn (account : Account α) (amount : α) : Account α :=
  { account with earned := account.earned + amount, due := account.due + amount }

def pay (account : Account α) (amount : α) : Account α :=
  { account with paid := account.paid + amount, unsettled := account.unsettled + amount }

def settle (account : Account α) : Account α :=
  { account with due := max (account.due - account.unsettled) 0, unsettled := 0 }

/-- **The books balance.** -/
structure Sound (account : Account α) : Prop where
  balance : account.paid + account.due = account.earned + account.unsettled
  covered : account.unsettled ≤ account.due

namespace Sound

variable {account : Account α} {amount : α} [IsOrderedAddMonoid α]

theorem earn (sound : account.Sound) (nonneg : 0 ≤ amount) : (account.earn amount).Sound where
  balance := by
    show account.paid + (account.due + amount) = account.earned + amount + account.unsettled
    rw [← add_assoc, sound.balance, add_right_comm]
  covered := le_trans sound.covered (le_add_of_nonneg_right nonneg)

omit [IsOrderedAddMonoid α] in
theorem pay (sound : account.Sound) (enough : account.unsettled + amount ≤ account.due) :
    (account.pay amount).Sound where
  balance := by
    show account.paid + amount + account.due = account.earned + (account.unsettled + amount)
    rw [add_right_comm, sound.balance, add_assoc]
  covered := enough

theorem settle (sound : account.Sound) : account.settle.Sound where
  balance := by
    show account.paid + max (account.due - account.unsettled) 0 = account.earned + 0
    rw [max_eq_left (sub_nonneg.mpr sound.covered), ← add_sub_assoc, sound.balance,
      add_sub_cancel_right, add_zero]
  covered := le_max_right _ _

/-- **No over-payment.** -/
theorem paid_le_earned (sound : account.Sound) : account.paid ≤ account.earned := by
  have shifted : account.paid + account.due ≤ account.earned + account.due := by
    rw [sound.balance]
    exact add_le_add_right sound.covered account.earned
  exact le_of_add_le_add_right shifted

end Sound

end Account

end QuantBTC.Theory
