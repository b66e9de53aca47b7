/-
# Theory.Runs -- runs of a step function

A run folds a step function over a list of events.  `StepsMeet` says that every event comes
in a state that meets a condition with it.
-/
import Mathlib

namespace QuantBTC.Theory.Runs

set_option autoImplicit false

variable {σ ε : Type} (step : σ → ε → σ) (Meets : σ → ε → Prop)

def StepsMeet : σ → List ε → Prop
  | _, [] => True
  | state, event :: rest => Meets state event ∧ StepsMeet (step state event) rest

instance decidableStepsMeet [∀ state event, Decidable (Meets state event)] :
    ∀ (state : σ) (events : List ε), Decidable (StepsMeet step Meets state events)
  | _, [] => isTrue trivial
  | state, event :: rest =>
    have := decidableStepsMeet (step state event) rest
    inferInstanceAs (Decidable (_ ∧ _))

variable {step Meets} {state : σ} {events : List ε}

theorem stepsMeet_of_forall {Allowed : ε → Prop} (allowed : ∀ event ∈ events, Allowed event) :
    StepsMeet step (fun _ event => Allowed event) state events := by
  induction events generalizing state with
  | nil => trivial
  | cons event rest ih =>
    exact ⟨allowed event List.mem_cons_self,
      ih fun later listed => allowed later (List.mem_cons_of_mem _ listed)⟩

theorem StepsMeet.and {Meets' : σ → ε → Prop} (one : StepsMeet step Meets state events)
    (two : StepsMeet step Meets' state events) :
    StepsMeet step (fun state event => Meets state event ∧ Meets' state event) state events := by
  induction events generalizing state with
  | nil => trivial
  | cons event rest ih => exact ⟨⟨one.1, two.1⟩, ih one.2 two.2⟩

variable (step) in
def gathered {α : Type} (yields : σ → ε → List α) : σ → List ε → List α
  | _, [] => []
  | state, event :: rest => yields state event ++ gathered yields (step state event) rest

theorem stepsMeet_gathered {α : Type} (yields : σ → ε → List α) {all : List α}
    (listed : ∀ x ∈ gathered step yields state events, x ∈ all) :
    StepsMeet step (fun state event => ∀ x ∈ yields state event, x ∈ all) state events := by
  induction events generalizing state with
  | nil => trivial
  | cons event rest ih =>
    refine ⟨?_, ih ?_⟩
    · exact fun x here => listed x (List.mem_append_left _ here)
    · exact fun x later => listed x (List.mem_append_right _ later)

theorem StepsMeet.invariant (Inv : σ → Prop)
    (keeps : ∀ state event, Inv state → Meets state event → Inv (step state event))
    (meets : StepsMeet step Meets state events) (start : Inv state) :
    Inv (events.foldl step state) := by
  induction events generalizing state with
  | nil => exact start
  | cons event rest ih => exact ih meets.2 (keeps state event start meets.1)

theorem StepsMeet.imp {Meets' : σ → ε → Prop} (Inv : σ → Prop)
    (keeps : ∀ state event, Inv state → Meets state event → Inv (step state event))
    (implies : ∀ state event, Inv state → Meets state event → Meets' state event)
    (meets : StepsMeet step Meets state events) (start : Inv state) :
    StepsMeet step Meets' state events := by
  induction events generalizing state with
  | nil => trivial
  | cons event rest ih =>
    exact ⟨implies state event start meets.1, ih meets.2 (keeps state event start meets.1)⟩

theorem invariant (Inv : σ → Prop) (keeps : ∀ state event, Inv state → Inv (step state event))
    (start : Inv state) : Inv (events.foldl step state) := by
  induction events generalizing state with
  | nil => exact start
  | cons event rest ih => exact ih (keeps state event start)

theorem forall_prefix_cons {Holds : σ → Prop} {event : ε} :
    (∀ done, done <+: event :: events → Holds (done.foldl step state)) ↔
      Holds state ∧ ∀ done, done <+: events → Holds (done.foldl step (step state event)) := by
  constructor
  · intro all
    refine ⟨all [] (List.nil_prefix), ?_⟩
    intro done isPrefix
    exact all (event :: done) (List.cons_prefix_cons.mpr ⟨rfl, isPrefix⟩)
  · rintro ⟨start, later⟩ done isPrefix
    cases done with
    | nil => exact start
    | cons first done =>
      obtain ⟨rfl, shorter⟩ := List.cons_prefix_cons.mp isPrefix
      exact later done shorter

theorem StepsMeet.throughout (Inv : σ → Prop)
    (keeps : ∀ state event, Inv state → Meets state event → Inv (step state event))
    (meets : StepsMeet step Meets state events) (start : Inv state) :
    ∀ done, done <+: events → Inv (done.foldl step state) := by
  induction events generalizing state with
  | nil =>
    intro done isPrefix
    rwa [List.prefix_nil.mp isPrefix]
  | cons event rest ih =>
    exact forall_prefix_cons.mpr ⟨start, ih meets.2 (keeps state event start meets.1)⟩

theorem holds_throughout_iff (Inv : σ → Prop) {Holds : σ → Prop}
    (keeps : ∀ state event, Inv state → Inv (step state event))
    (exact_step : ∀ state event, Inv state → Holds state →
      (Holds (step state event) ↔ Meets state event))
    (start : Inv state) (holds : Holds state) :
    (∀ done, done <+: events → Holds (done.foldl step state)) ↔
      StepsMeet step Meets state events := by
  induction events generalizing state with
  | nil =>
    refine iff_of_true ?_ trivial
    intro done isPrefix
    rwa [List.prefix_nil.mp isPrefix]
  | cons event rest ih =>
    rw [forall_prefix_cons]
    constructor
    · rintro ⟨_, later⟩
      have next : Holds (step state event) := later [] List.nil_prefix
      exact ⟨(exact_step state event start holds).mp next,
        (ih (keeps state event start) next).mp later⟩
    · rintro ⟨meets, rest⟩
      have next := (exact_step state event start holds).mpr meets
      exact ⟨holds, (ih (keeps state event start) next).mpr rest⟩

/-! ## States on the way

A step may go through several states; what is asked of a run is then asked of each of them. -/

inductive Passes (R : σ → σ → Prop) (Inv : σ → Prop) : σ → List σ → Prop where
  | done {state : σ} (inv : Inv state) : Passes R Inv state []
  | next {state later : σ} {states : List σ} (related : R state later)
      (rest : Passes R Inv later states) : Passes R Inv state (later :: states)

namespace Passes

variable {R : σ → σ → Prop} {Inv : σ → Prop} {later : σ} {states others : List σ}

theorem one (related : R state later) (inv : Inv later) : Passes R Inv state [later] :=
  .next related (.done inv)

theorem last (passes : Passes R Inv state states) : Inv (states.getLastD state) := by
  induction passes with
  | done inv => exact inv
  | next _ _ ih => rwa [List.getLastD_cons]

theorem append (first : Passes R Inv state states)
    (second : Passes R Inv (states.getLastD state) others) :
    Passes R Inv state (states ++ others) := by
  induction first with
  | done _ => exact second
  | next related _ ih =>
    rw [List.getLastD_cons] at second
    exact .next related (ih second)

theorem isChain (passes : Passes R Inv state states) : (state :: states).IsChain R := by
  induction passes with
  | done _ => exact .singleton _
  | next related _ ih => exact List.isChain_cons_cons.mpr ⟨related, ih⟩

theorem forall_later {Holds : σ → Prop} (holds : ∀ state later, R state later → Holds later)
    (passes : Passes R Inv state states) : ∀ later ∈ states, Holds later := by
  induction passes with
  | done _ => exact fun _ listed => by cases listed
  | next related _ ih => exact List.forall_mem_cons.mpr ⟨holds _ _ related, ih⟩

theorem gathered {yields : σ → ε → List σ}
    (ends : ∀ state event, step state event = (yields state event).getLastD state)
    (each : ∀ state event, Inv state → Passes R Inv state (yields state event))
    (start : Inv state) (events : List ε) :
    Passes R Inv state (Runs.gathered step yields state events) := by
  induction events generalizing state with
  | nil => exact .done start
  | cons event rest ih =>
    have first := each state event start
    refine first.append ?_
    rw [← ends]
    apply ih
    rw [ends]
    exact first.last

end Passes

end QuantBTC.Theory.Runs
