/-
# Theory.Maps -- properties of every entry of a map

A map is an association list with distinct keys.  `AllEntries P m` says that `P` holds of
every entry of `m`: it holds of no entry at all, and is kept by an insertion of an entry it
holds of and by every erasure.  `foldl_entries_of_lookup` says what one entry contributes to a
loop through the map.
-/
import Mathlib

namespace QuantBTC.Theory.Maps

set_option autoImplicit false

variable {κ ν : Type} [DecidableEq κ]

def AllEntries (P : κ → ν → Prop) (m : AList fun _ : κ => ν) : Prop :=
  ∀ k v, m.lookup k = some v → P k v

variable {P : κ → ν → Prop} {m : AList fun _ : κ => ν} {k : κ} {v : ν}

theorem lookup_of_mem_entries {entry : (_ : κ) × ν} (listed : entry ∈ m.entries) :
    m.lookup entry.1 = some entry.2 :=
  AList.mem_lookup_iff.mpr listed

theorem mem_entries_of_lookup (found : m.lookup k = some v) :
    (⟨k, v⟩ : (_ : κ) × ν) ∈ m.entries :=
  AList.mem_lookup_iff.mp found

theorem mem_of_lookup (found : m.lookup k = some v) : k ∈ m :=
  AList.lookup_isSome.mp (by rw [found]; rfl)

theorem eq_empty_of_lookup (none : ∀ k, m.lookup k = none) : m = ∅ := by
  refine AList.ext (List.eq_nil_iff_forall_not_mem.mpr fun entry listed => ?_)
  have found := lookup_of_mem_entries listed
  simp [none] at found

omit [DecidableEq κ] in
theorem mem_singleton_self (k : κ) (v : ν) : k ∈ (AList.singleton k v : AList fun _ : κ => ν) := by
  rw [AList.mem_keys, AList.keys_singleton]
  exact List.mem_singleton_self k

theorem lookup_insert_cases {k' : κ} {v' : ν} (found : (m.insert k v).lookup k' = some v') :
    k' = k ∧ v' = v ∨ k' ≠ k ∧ m.lookup k' = some v' := by
  by_cases same : k' = k
  · subst same
    rw [AList.lookup_insert] at found
    exact .inl ⟨rfl, (Option.some.inj found).symm⟩
  · rw [AList.lookup_insert_ne same] at found
    exact .inr ⟨same, found⟩

theorem lookup_of_lookup_erase {k' : κ} {v' : ν} (found : (m.erase k).lookup k' = some v') :
    k' ≠ k ∧ m.lookup k' = some v' := by
  by_cases same : k' = k
  · subst same
    simp at found
  · exact ⟨same, by rwa [AList.lookup_erase_ne same] at found⟩

theorem lookup_foldl_insert (keys : List κ) (m : AList fun _ : κ => ν) (k : κ) :
    (keys.foldl (fun m key => m.insert key v) m).lookup k
      = if k ∈ keys then some v else m.lookup k := by
  induction keys generalizing m with
  | nil => simp
  | cons key keys ih =>
    rw [List.foldl_cons, ih]
    by_cases same : k = key
    · subst same
      simp
    · simp [same, AList.lookup_insert_ne same]

theorem foldl_entries_of_lookup {σ : Type} {step : σ → (_ : κ) × ν → σ} (Inv Holds : σ → Prop)
    (invariant : ∀ state, ∀ entry ∈ m.entries, Inv state → Inv (step state entry))
    (found : m.lookup k = some v) (establishes : ∀ state, Inv state → Holds (step state ⟨k, v⟩))
    (keeps : ∀ state, ∀ entry ∈ m.entries, Inv state → Holds state → Holds (step state entry))
    {start : σ} (initial : Inv start) : Holds (m.entries.foldl step start) := by
  have listed := mem_entries_of_lookup found
  obtain ⟨before, after, split⟩ := List.append_of_mem listed
  have here {entry : (_ : κ) × ν} (later : entry ∈ after) : entry ∈ m.entries := by
    rw [split]
    exact List.mem_append_right _ (List.mem_cons_of_mem _ later)
  have reached : Inv (before.foldl step start) :=
    List.foldlRecOn _ _ initial fun state inv entry earlier =>
      invariant state entry (by rw [split]; exact List.mem_append_left _ earlier) inv
  rw [split, List.foldl_append, List.foldl_cons]
  refine (List.foldlRecOn (motive := fun state => Inv state ∧ Holds state) after step
    ⟨invariant _ _ listed reached, establishes _ reached⟩ ?_).2
  rintro state ⟨inv, holds⟩ entry later
  exact ⟨invariant state entry (here later) inv, keeps state entry (here later) inv holds⟩

namespace AllEntries

@[simp] theorem empty : AllEntries P (∅ : AList fun _ : κ => ν) := by
  intro k v found
  simp at found

theorem insert (all : AllEntries P m) (holds : P k v) : AllEntries P (m.insert k v) := by
  intro k' v' found
  rcases lookup_insert_cases found with ⟨rfl, rfl⟩ | ⟨-, found⟩
  · exact holds
  · exact all _ _ found

theorem erase (all : AllEntries P m) (k : κ) : AllEntries P (m.erase k) := by
  intro k' v' found
  exact all _ _ (lookup_of_lookup_erase found).2

theorem mono {Q : κ → ν → Prop} (all : AllEntries P m) (weaken : ∀ k v, P k v → Q k v) :
    AllEntries Q m :=
  fun k v found => weaken k v (all k v found)

end AllEntries

end QuantBTC.Theory.Maps
