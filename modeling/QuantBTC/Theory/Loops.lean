/-
# Theory.Loops -- loops that stop at the first failure

A loop goes through a list and stops at the first item whose step fails, in the state that
step left.
-/
import Mathlib

namespace QuantBTC.Theory.Loops

set_option autoImplicit false

variable {σ α : Type}

def loop (step : σ → α → σ × Bool) : List α → σ → σ × Bool
  | [], state => (state, true)
  | item :: rest, state =>
    if (step state item).2 then loop step rest (step state item).1
    else ((step state item).1, false)

variable {step : σ → α → σ × Bool} {items : List α} {state : σ}

@[simp] theorem loop_nil : loop step [] state = (state, true) := rfl

theorem loop_cons_of_ok {item : α} (ok : (step state item).2 = true) :
    loop step (item :: items) state = loop step items (step state item).1 := by
  simp [loop, ok]

theorem loop_cons_of_fail {item : α} (fail : (step state item).2 = false) :
    loop step (item :: items) state = ((step state item).1, false) := by
  simp [loop, fail]

variable (Inv : σ → Prop)

theorem loop_invariant (keeps : ∀ state, ∀ item ∈ items, Inv state → Inv (step state item).1)
    (start : Inv state) : Inv (loop step items state).1 := by
  induction items generalizing state with
  | nil => exact start
  | cons item rest ih =>
    have next := keeps state item List.mem_cons_self start
    cases ok : (step state item).2 with
    | false => simpa [loop, ok] using next
    | true =>
      rw [loop_cons_of_ok ok]
      exact ih (fun state later listed => keeps state later (List.mem_cons_of_mem _ listed)) next

theorem loop_invariant_of_success (keeps : ∀ state, ∀ item ∈ items, Inv state → (step state item).2
      = true → Inv (step state item).1) (start : Inv state)
    (success : (loop step items state).2 = true) : Inv (loop step items state).1 := by
  induction items generalizing state with
  | nil => exact start
  | cons item rest ih =>
    cases ok : (step state item).2 with
    | false => simp [loop, ok] at success
    | true =>
      rw [loop_cons_of_ok ok] at success ⊢
      exact ih (fun state later listed => keeps state later (List.mem_cons_of_mem _ listed))
        (keeps state item List.mem_cons_self start ok) success

theorem loop_range' {step : σ → Nat → σ × Bool} (Inv : Nat → σ → Prop) {start count : Nat}
    (keeps : ∀ i state, Inv i state → (step state i).2 = true → Inv (i + 1) (step state i).1)
    (init : Inv start state) (success : (loop step (List.range' start count) state).2 = true) :
    Inv (start + count) (loop step (List.range' start count) state).1 := by
  induction count generalizing start state with
  | zero => exact init
  | succ count ih =>
    rw [List.range'_succ] at success ⊢
    cases ok : (step state start).2 with
    | false => simp [loop, ok] at success
    | true =>
      rw [loop_cons_of_ok ok] at success ⊢
      rw [← Nat.add_assoc, Nat.add_right_comm]
      exact ih (keeps start state init ok) success

theorem loop_range'_ok {step : σ → Nat → σ × Bool} (Inv : Nat → σ → Prop) {start count : Nat}
    (keeps : ∀ i state, i < start + count → Inv i state →
      (step state i).2 = true ∧ Inv (i + 1) (step state i).1) (init : Inv start state) :
    (loop step (List.range' start count) state).2 = true ∧
      Inv (start + count) (loop step (List.range' start count) state).1 := by
  induction count generalizing start state with
  | zero => exact ⟨rfl, init⟩
  | succ count ih =>
    obtain ⟨ok, next⟩ := keeps start state (by omega) init
    rw [List.range'_succ, loop_cons_of_ok ok, ← Nat.add_assoc, Nat.add_right_comm]
    exact ih (fun i state below => keeps i state (by omega)) next

theorem loop_eq_all (ok : α → Bool)
    (keeps : ∀ state, ∀ item ∈ items, Inv state → Inv (step state item).1)
    (decides : ∀ state, ∀ item ∈ items, Inv state → (step state item).2 = ok item)
    (start : Inv state) : (loop step items state).2 = items.all ok := by
  induction items generalizing state with
  | nil => rfl
  | cons item rest ih =>
    have first := decides state item List.mem_cons_self start
    have next := keeps state item List.mem_cons_self start
    have keepsLater := fun state other listed => keeps state other (List.mem_cons_of_mem _ listed)
    have later := fun state other listed => decides state other (List.mem_cons_of_mem _ listed)
    cases result : ok item with
    | false => simp [loop, first, result]
    | true => simp [loop, first, result, ih keepsLater later next]

theorem loop_establishes (Holds : α → σ → Prop)
    (keeps : ∀ state, ∀ item ∈ items, Inv state → Inv (step state item).1) (establishes : ∀ state, ∀
      item ∈ items, Inv state → (step state item).2 = true → Holds item (step state item).1) (undoes
      : ∀ state, ∀ item ∈ items, ∀ other ∈ items, other ≠ item → Holds other state → Holds other
      (step state item).1) (distinct : items.Nodup) (start : Inv state)
    (success : (loop step items state).2 = true) :
    ∀ item ∈ items, Holds item (loop step items state).1 := by
  induction items generalizing state with
  | nil => simp
  | cons first rest ih =>
    obtain ⟨unlisted, distinct⟩ := List.nodup_cons.mp distinct
    have later {P : σ → α → Prop} (all : ∀ s, ∀ a ∈ first :: rest, P s a) :
        ∀ s, ∀ a ∈ rest, P s a := fun s a listed => all s a (List.mem_cons_of_mem _ listed)
    cases ok : (step state first).2 with
    | false => simp [loop, ok] at success
    | true =>
      rw [loop_cons_of_ok ok] at success ⊢
      intro item member
      rcases List.mem_cons.mp member with rfl | listed
      · refine loop_invariant (Holds item) ?_ (establishes state item member start ok)
        intro state other listed
        exact undoes state other (List.mem_cons_of_mem _ listed) item member
          fun same => unlisted (same ▸ listed)
      · exact ih (later keeps) (later establishes)
          (fun s a listed b listed' => undoes s a (List.mem_cons_of_mem _ listed) b
            (List.mem_cons_of_mem _ listed'))
          distinct (keeps state first List.mem_cons_self start) success item listed

end QuantBTC.Theory.Loops
