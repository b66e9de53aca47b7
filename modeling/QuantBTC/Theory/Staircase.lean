/-
# Theory.Staircase -- sorted levels without gaps

A sorted list of levels that has, with every positive level, the level below has no gap
between neighbours.
-/
import Mathlib

namespace QuantBTC.Theory.Staircase

set_option autoImplicit false

theorem isChain_cons {first : Nat} {levels : List Nat}
    (sorted : (first :: levels).Pairwise (· ≤ ·))
    (below : ∀ n, n + 1 ∈ levels → n + 1 ≤ first ∨ n ∈ first :: levels) :
    (first :: levels).IsChain fun a b => b ≤ a + 1 := by
  induction levels generalizing first with
  | nil => exact .singleton _
  | cons next rest ih =>
    obtain ⟨least, sorted⟩ := List.pairwise_cons.mp sorted
    have firstLe := least next (List.mem_cons_self ..)
    have nextLe := (List.pairwise_cons.mp sorted).1
    have step : next ≤ first + 1 := by
      by_contra gap
      obtain ⟨n, rfl⟩ : ∃ n, next = n + 1 := ⟨next - 1, by omega⟩
      rcases below n (List.mem_cons_self ..) with low | mem
      · omega
      · rcases List.mem_cons.mp mem with rfl | mem
        · omega
        · rcases List.mem_cons.mp mem with same | mem
          · omega
          · have := nextLe n mem
            omega
    refine .cons_cons step (ih sorted fun n mem => ?_)
    rcases below n (List.mem_cons_of_mem _ mem) with low | inside
    · exact .inl (by omega)
    · rcases List.mem_cons.mp inside with rfl | inside
      · -- the level below is the first one, which is `next` or the one below it
        rcases Nat.lt_or_ge n next with above | same
        · exact .inl above
        · exact .inr (by rw [Nat.le_antisymm firstLe same]; exact List.mem_cons_self ..)
      · exact .inr inside

theorem isChain {levels : List Nat} (sorted : levels.Pairwise (· ≤ ·))
    (below : ∀ n, n + 1 ∈ levels → n ∈ levels) : levels.IsChain fun a b => b ≤ a + 1 := by
  cases levels with
  | nil => exact .nil
  | cons first rest =>
    exact isChain_cons sorted fun n mem => .inr (below n (List.mem_cons_of_mem _ mem))

end QuantBTC.Theory.Staircase
