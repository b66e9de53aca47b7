/-
# Theory.VerdictCache -- a cache of successful checks

A check that may succeed, fail or abort (`verdict`, `none` for an abort) is wrapped by
a set of keys: a query whose key is in the set succeeds at once, any other is checked
and, when it succeeds and is to be stored, leaves its key.  Entries may disappear at any
time: every request says which have gone when it arrives.
-/
import Mathlib

namespace QuantBTC.Theory.VerdictCache

set_option autoImplicit false
set_option linter.unusedSectionVars false

variable {Query Key : Type} [DecidableEq Key]

structure Request (Query Key : Type) where
  query : Query
  store : Bool
  evicted : Finset Key

variable (key : Query → Key) (verdict : Query → Option Bool)

def answer (cache : Finset Key) (request : Request Query Key) : Finset Key × Option Bool :=
  let cache := cache \ request.evicted
  if key request.query ∈ cache then (cache, some true)
  else
    match verdict request.query with
    | some true => (if request.store then insert (key request.query) cache else cache, some true)
    | other => (cache, other)

def run : Finset Key → List (Request Query Key) → List (Query × Bool)
  | _, [] => []
  | cache, request :: rest =>
    match answer key verdict cache request with
    | (_, none) => []
    | (cache, some result) => (request.query, result) :: run cache rest

def Backed (queries : Set Query) (cache : Finset Key) : Prop :=
  ∀ entry ∈ cache, ∃ query ∈ queries, key query = entry ∧ verdict query = some true

def Determines (queries : Set Query) : Prop :=
  ∀ first ∈ queries, ∀ second ∈ queries, key first = key second →
    verdict first = some true → verdict second = some true

def Sound (answers : List (Query × Bool)) : Prop :=
  ∀ entry ∈ answers, entry.2 = true → verdict entry.1 = some true

variable {key verdict}

theorem backed_empty (queries : Set Query) : Backed key verdict queries ∅ := nofun

variable {queries : Set Query} {cache : Finset Key}

theorem Backed.sdiff (backed : Backed key verdict queries cache) (evicted : Finset Key) :
    Backed key verdict queries (cache \ evicted) :=
  fun entry mem => backed entry (Finset.mem_sdiff.mp mem).1

theorem Backed.insert (backed : Backed key verdict queries cache) {query : Query}
    (mem : query ∈ queries) (succeeds : verdict query = some true) :
    Backed key verdict queries (insert (key query) cache) := by
  intro entry inside
  rcases Finset.mem_insert.mp inside with rfl | old
  · exact ⟨query, mem, rfl, succeeds⟩
  · exact backed entry old

theorem answer_spec (determines : Determines key verdict queries)
    (backed : Backed key verdict queries cache) {request : Request Query Key}
    (mem : request.query ∈ queries) :
    Backed key verdict queries (answer key verdict cache request).1 ∧
      ((answer key verdict cache request).2 = some true →
        verdict request.query = some true) := by
  have kept := backed.sdiff request.evicted
  simp only [answer]
  split
  next hit =>
    obtain ⟨query, inside, same, succeeds⟩ := kept _ hit
    exact ⟨kept, fun _ => determines query inside _ mem same succeeds⟩
  · split
    next succeeds =>
      refine ⟨?_, fun _ => succeeds⟩
      split
      · exact kept.insert mem succeeds
      · exact kept
    next other => exact ⟨kept, id⟩

theorem run_sound (determines : Determines key verdict queries)
    (backed : Backed key verdict queries cache) {requests : List (Request Query Key)}
    (inside : ∀ request ∈ requests, request.query ∈ queries) :
    Sound verdict (run key verdict cache requests) := by
  induction requests generalizing cache with
  | nil => exact nofun
  | cons request rest ih =>
    obtain ⟨stillBacked, sound⟩ := answer_spec determines backed (inside request (by simp))
    rw [run]
    split
    · exact nofun
    next cache' result answered =>
      rw [answered] at stillBacked sound
      intro entry mem
      rcases List.mem_cons.mp mem with rfl | later
      · rintro rfl
        exact sound rfl
      · exact ih stillBacked (fun r mem => inside r (List.mem_cons_of_mem _ mem)) entry later

end QuantBTC.Theory.VerdictCache
