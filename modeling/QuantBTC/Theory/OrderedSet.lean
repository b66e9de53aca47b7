/-
# Theory.OrderedSet -- a search tree whose comparator reads other state

A set that is kept in the order of a comparator, seen as the list of its elements in order.  The
comparator is a parameter of every operation: the elements may be keys into a state that changes
between two of them.  Insertion asks it only about the elements that are there.
-/
import Mathlib

namespace QuantBTC.Theory.OrderedSet

set_option autoImplicit false

variable {α : Type} {less less' : α → α → Bool} {a b : α} {elements : List α}

def insert (less : α → α → Bool) (a : α) : List α → List α
  | [] => [a]
  | b :: rest =>
    if less a b then a :: b :: rest
    else if less b a then b :: insert less a rest
    else b :: rest

def Sorted (less : α → α → Bool) (elements : List α) : Prop :=
  elements.Pairwise fun a b => less a b = true

structure StrictTotal (less : α → α → Bool) : Prop where
  irrefl : ∀ a, less a a = false
  trans : ∀ a b c, less a b = true → less b c = true → less a c = true
  total : ∀ a b, less a b = false → less b a = false → a = b

theorem Sorted.congr (sorted : Sorted less elements)
    (same : ∀ a ∈ elements, ∀ b ∈ elements, less' a b = less a b) : Sorted less' elements := by
  apply List.Pairwise.imp_of_mem _ sorted
  intro a b memA memB precedes
  rwa [same a memA b memB]

theorem mem_insert (order : StrictTotal less) :
    b ∈ insert less a elements ↔ b = a ∨ b ∈ elements := by
  induction elements with
  | nil => simp [insert]
  | cons c rest ih =>
    rw [insert]
    split
    · exact List.mem_cons
    next notBefore =>
      split
      · simp only [List.mem_cons, ih]
        exact or_left_comm
      next notAfter =>
        have same : a = c := order.total a c (by simpa using notBefore) (by simpa using notAfter)
        simp [same]

theorem Sorted.insert (order : StrictTotal less) (sorted : Sorted less elements) (a : α) :
    Sorted less (insert less a elements) := by
  induction elements with
  | nil => exact List.pairwise_singleton _ a
  | cons c rest ih =>
    obtain ⟨first, others⟩ := List.pairwise_cons.mp sorted
    rw [OrderedSet.insert]
    split
    next before =>
      refine List.Pairwise.cons ?_ sorted
      intro b listed
      rcases List.mem_cons.mp listed with rfl | later
      · exact before
      · exact order.trans a c b before (first b later)
    · split
      next after =>
        refine List.Pairwise.cons ?_ (ih others)
        intro b listed
        rcases (mem_insert order).mp listed with rfl | later
        · exact after
        · exact first b later
      · exact sorted

theorem Sorted.nodup (order : StrictTotal less) (sorted : Sorted less elements) :
    elements.Nodup := by
  apply List.Pairwise.imp _ sorted
  rintro a _ precedes rfl
  simp [order.irrefl a] at precedes

theorem Sorted.insert_perm [DecidableEq α] (order : StrictTotal less)
    (sorted : Sorted less elements) (a : α) :
    (OrderedSet.insert less a elements).Perm (elements.insert a) := by
  apply (List.perm_ext_iff_of_nodup ((sorted.insert order a).nodup order)
    (List.Nodup.insert (sorted.nodup order))).mpr
  intro b
  rw [mem_insert order, List.mem_insert_iff]

end QuantBTC.Theory.OrderedSet
