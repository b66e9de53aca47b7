/-
# Theory.Escrow -- what is owed and what is held

An escrow owes an amount under each identifier and holds one balance.  It is solvent when
the balance covers the sum of what it owes.  Taking an amount in under an identifier that
owes nothing, paying out what one identifier owes, and receiving anything more keep it so.
-/
import Mathlib

namespace QuantBTC.Theory.Escrow

set_option autoImplicit false

variable {ι : Type} [Fintype ι]

def Solvent (owed : ι → Nat) (held : Nat) : Prop := ∑ i, owed i ≤ held

variable {owed : ι → Nat} {held : Nat}

theorem solvent_zero (held : Nat) : Solvent (fun _ : ι => 0) held := by
  simp [Solvent]

theorem Solvent.mono {more : Nat} (solvent : Solvent owed held) (le : held ≤ more) :
    Solvent owed more := le_trans solvent le

variable [DecidableEq ι]

theorem sum_update (owed : ι → Nat) (i : ι) (amount : Nat) :
    ∑ j, Function.update owed i amount j + owed i = ∑ j, owed j + amount := by
  rw [Finset.sum_update_of_mem (Finset.mem_univ i), ← Finset.sum_sdiff (Finset.subset_univ {i}),
    Finset.sum_singleton]
  omega

theorem Solvent.take {i : ι} {amount : Nat} (solvent : Solvent owed held) (free : owed i = 0) :
    Solvent (Function.update owed i amount) (held + amount) := by
  have sum := sum_update owed i amount
  unfold Solvent at solvent ⊢
  omega

theorem Solvent.pay {i : ι} (solvent : Solvent owed held) :
    Solvent (Function.update owed i 0) (held - owed i) := by
  have sum := sum_update owed i 0
  have single := Finset.single_le_sum (fun j _ => Nat.zero_le (owed j)) (Finset.mem_univ i)
  unfold Solvent at solvent ⊢
  omega

end QuantBTC.Theory.Escrow
