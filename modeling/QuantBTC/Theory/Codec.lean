/-
# Theory.Codec -- readers that consume exactly what was written

A reader takes an initial part of its input and returns a value with what is left,
or fails.  `Reads reader written value` says that the reader turns `written`,
followed by anything, into `value` and leaves exactly what followed.  The rules
compose with the reader: `Reads.bind` for a sequence, `Reads.many` for a counted
list, and `Reads.unique` turns a round trip into injectivity of the encoding.

`Parses reader Spec` is the other direction: whenever the reader succeeds, what it took
off its input stands in `Spec` to the value it returned.  Its rules follow the reader in
the same way; `Parses.bind` hands on what the first part took.
-/
import Mathlib

namespace QuantBTC.Theory

set_option autoImplicit false

abbrev Reader (ε σ : Type) := StateT (List σ) (Except ε)

namespace Reader

variable {ε σ α β : Type}

def take (short : ε) (n : Nat) : Reader ε σ (List σ) := fun input =>
  if n ≤ input.length then .ok (input.take n, input.drop n) else .error short

def many (reader : Reader ε σ α) : Nat → Reader ε σ (List α)
  | 0 => pure []
  | n + 1 => do
      let first ← reader
      let others ← many reader n
      pure (first :: others)

theorem bind_pure_apply (reader : Reader ε σ α) (convert : α → β) (input : List σ) :
    (reader >>= fun out => Pure.pure (convert out)) input =
      (reader input).map fun out => (convert out.1, out.2) := by
  show (reader input).bind (fun out => Except.ok (convert out.1, out.2)) = _
  cases reader input with
  | error failure => rfl
  | ok out => rfl

def Reads (reader : Reader ε σ α) (written : List σ) (value : α) : Prop :=
  ∀ rest, reader (written ++ rest) = .ok (value, rest)

namespace Reads

theorem pure (value : α) : Reads (Pure.pure value : Reader ε σ α) [] value := fun _ => rfl

variable {reader : Reader ε σ α} {next : α → Reader ε σ β} {written : List σ} {value : α}

theorem bind_apply (first : Reads reader written value) (rest : List σ) :
    (reader >>= next) (written ++ rest) = next value rest := by
  show (reader (written ++ rest)).bind (fun out => next out.1 out.2) = _
  rw [first rest]
  rfl

theorem bind {tail : List σ} {result : β} (first : Reads reader written value)
    (second : Reads (next value) tail result) :
    Reads (reader >>= next) (written ++ tail) result := by
  intro rest
  rw [List.append_assoc, first.bind_apply]
  exact second rest

theorem bind_pure (convert : α → β) (first : Reads reader written value) :
    Reads (reader >>= fun out => Pure.pure (convert out)) written (convert value) := by
  have whole : Reads (reader >>= fun out => Pure.pure (convert out)) (written ++ [])
      (convert value) := first.bind (pure (convert value))
  rwa [List.append_nil] at whole

theorem take (short : ε) (written : List σ) :
    Reads (Reader.take short written.length) written written := by
  intro rest
  have enough : written.length ≤ (written ++ rest).length := by
    rw [List.length_append]
    exact Nat.le_add_right _ _
  rw [Reader.take, if_pos enough, List.take_left, List.drop_left]

theorem many {write : α → List σ} {values : List α}
    (element : ∀ value ∈ values, Reads reader (write value) value) :
    Reads (Reader.many reader values.length) (values.flatMap write) values := by
  induction values with
  | nil => exact pure []
  | cons value values ih =>
    obtain ⟨first, others⟩ := List.forall_mem_cons.mp element
    rw [List.flatMap_cons]
    exact first.bind ((ih others).bind_pure (value :: ·))

theorem optional {present : Prop} [Decidable present] (old : α) (read : Reads reader written value)
    :
    Reads (if present then reader else Pure.pure old) (if present then written else [])
      (if present then value else old) := by
  split
  · exact read
  · exact pure old

theorem unique {other : α} (one : Reads reader written value) (two : Reads reader written other) :
    value = other := by
  have same := (one []).symm.trans (two [])
  exact (Prod.mk.inj (Except.ok.inj same)).1

end Reads

def Parses (reader : Reader ε σ α) (Spec : α → List σ → Prop) : Prop :=
  ∀ input value rest, reader input = .ok (value, rest) →
    ∃ written, input = written ++ rest ∧ Spec value written

namespace Parses

variable {Spec : β → List σ → Prop}

theorem pure {value : β} (holds : Spec value []) :
    Parses (Pure.pure value : Reader ε σ β) Spec := by
  rintro input _ _ ⟨⟩
  exact ⟨[], rfl, holds⟩

theorem throw (failure : ε) : Parses (throw failure : Reader ε σ β) Spec := by
  intro input value rest parsed
  cases parsed

theorem mono {reader : Reader ε σ β} {Weaker : β → List σ → Prop} (parses : Parses reader Spec)
    (weaken : ∀ value written, Spec value written → Weaker value written) :
    Parses reader Weaker := by
  intro input value rest parsed
  obtain ⟨written, split, holds⟩ := parses input value rest parsed
  exact ⟨written, split, weaken value written holds⟩

variable {reader : Reader ε σ α} {First : α → List σ → Prop}

theorem bind {next : α → Reader ε σ β} (first : Parses reader First) (second : ∀ value written,
      First value written → Parses (next value) fun result tail => Spec result (written ++ tail)) :
    Parses (reader >>= next) Spec := by
  intro input result rest parsed
  have parsed : (reader input).bind (fun out => next out.1 out.2) = .ok (result, rest) := parsed
  cases taken : reader input with
  | error failure =>
    rw [taken] at parsed
    cases parsed
  | ok out =>
    rw [taken] at parsed
    obtain ⟨written, split, holds⟩ := first input out.1 out.2 taken
    obtain ⟨tail, splitTail, whole⟩ := second out.1 written holds out.2 result rest parsed
    exact ⟨written ++ tail, by rw [split, splitTail, List.append_assoc], whole⟩

theorem bind_pure {convert : α → β} (first : Parses reader First)
    (holds : ∀ value written, First value written → Spec (convert value) written) :
    Parses (reader >>= fun out => Pure.pure (convert out)) Spec := by
  refine first.bind fun value written taken => Parses.pure ?_
  rw [List.append_nil]
  exact holds value written taken

theorem take (short : ε) (n : Nat) : Parses (Reader.take short n : Reader ε σ (List σ))
    fun value written => written = value ∧ value.length = n := by
  intro input value rest parsed
  unfold Reader.take at parsed
  split at parsed
  next enough =>
    cases parsed
    exact ⟨input.take n, (List.take_append_drop n input).symm, rfl, List.length_take_of_le enough⟩
  next => cases parsed

theorem many {write : α → List σ} {Valid : α → Prop}
    (element : Parses reader fun value written => written = write value ∧ Valid value) (n : Nat) :
    Parses (Reader.many reader n) fun values written =>
      written = values.flatMap write ∧ values.length = n ∧ ∀ value ∈ values, Valid value := by
  induction n with
  | zero => exact pure ⟨rfl, rfl, fun value listed => by cases listed⟩
  | succ n ih =>
    refine element.bind ?_
    rintro value _ ⟨rfl, valid⟩
    refine ih.bind_pure ?_
    rintro values _ ⟨rfl, counted, allValid⟩
    refine ⟨rfl, congrArg Nat.succ counted, ?_⟩
    exact List.forall_mem_cons.mpr ⟨valid, allValid⟩

end Parses

end Reader

end QuantBTC.Theory
