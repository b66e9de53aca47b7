/-
# Theory.HashChain -- a chain stored without its links

Items carry a link to the item before them (`prev`) and a key by which the next one
links to them (`key`).  A store that drops the links can put them back in order
(`rebuild`): each item is relinked to the key of the item rebuilt before it.
-/
import Mathlib

namespace QuantBTC.Theory.HashChain

set_option autoImplicit false

variable {α ι : Type} (key : α → ι) (prev : α → ι) (relink : ι → α → α)

def lastKey (start : ι) (items : List α) : ι := items.foldl (fun _ item => key item) start

def Linked : ι → List α → Prop
  | _, [] => True
  | start, item :: rest => prev item = start ∧ Linked (key item) rest

def rebuild : ι → List α → List α
  | _, [] => []
  | start, item :: rest => relink start item :: rebuild (key (relink start item)) rest

variable (start : ι)

@[simp] theorem lastKey_nil : lastKey key start [] = start := rfl

@[simp] theorem lastKey_cons (item : α) (rest : List α) :
    lastKey key start (item :: rest) = lastKey key (key item) rest := rfl

@[simp] theorem lastKey_append (items more : List α) :
    lastKey key start (items ++ more) = lastKey key (lastKey key start items) more := by
  simp [lastKey]

theorem linked_append (items more : List α) :
    Linked key prev start (items ++ more)
      ↔ Linked key prev start items ∧ Linked key prev (lastKey key start items) more := by
  induction items generalizing start with
  | nil => simp [Linked]
  | cons item rest ih => simp [Linked, ih, and_assoc]

@[simp] theorem length_rebuild (items : List α) :
    (rebuild key relink start items).length = items.length := by
  induction items generalizing start with
  | nil => rfl
  | cons item rest ih => simp [rebuild, ih]

theorem rebuild_append (items more : List α) :
    rebuild key relink start (items ++ more)
      = rebuild key relink start items ++
          rebuild key relink (lastKey key start (rebuild key relink start items)) more := by
  induction items generalizing start with
  | nil => rfl
  | cons item rest ih => simp [rebuild, ih]

theorem linked_rebuild (link : ∀ start item, prev (relink start item) = start)
    (start : ι) (items : List α) : Linked key prev start (rebuild key relink start items) := by
  induction items generalizing start with
  | nil => trivial
  | cons item rest ih => exact ⟨link start item, ih _⟩

theorem rebuild_eq_self_iff {start : ι} {items : List α} (linked : Linked key prev start items) :
    rebuild key relink start items = items ↔ ∀ item ∈ items, relink (prev item) item = item := by
  induction items generalizing start with
  | nil => simp [rebuild]
  | cons item rest ih =>
    obtain ⟨rfl, restLinked⟩ := linked
    simp only [rebuild, List.cons.injEq, List.forall_mem_cons]
    refine and_congr_right fun same => ?_
    rw [same]
    exact ih restLinked

end QuantBTC.Theory.HashChain
