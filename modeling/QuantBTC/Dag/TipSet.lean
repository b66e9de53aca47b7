/-
# Dag.TipSet -- `DagTipSet`

The tips of the block DAG: an ordered set of scored hashes, best first, with the score of
each tip by hash and the scores of the blocks known so far.

The ordered set and the map are updated by separate statements.  `InsertTip` does not take an
older pair of the same hash out of the ordered set, so the two stay inverse to each other as
long as no tip is connected again with another score.
-/
import QuantBTC.Primitives.Bytes
import QuantBTC.Theory.Runs

namespace QuantBTC.Dag

set_option autoImplicit false

open Primitives Theory.Runs

def knownScoresPruneDepth : Nat := 1000

structure DagTipSet where
  scoreToHash : List (Nat × Uint256) := []
  hashToScore : AList fun _ : Uint256 => Nat := ∅
  knownScores : AList fun _ : Uint256 => Nat := ∅

namespace DagTipSet

def TipOrder (a b : Nat × Uint256) : Prop := a.1 > b.1 ∨ (a.1 = b.1 ∧ a.2 < b.2)

instance : DecidableRel TipOrder := fun _ _ => inferInstanceAs (Decidable (_ ∨ (_ ∧ _)))

def insertTip (tips : DagTipSet) (hash : Uint256) (blueScore : Nat) : DagTipSet where
  scoreToHash :=
    if (blueScore, hash) ∈ tips.scoreToHash then tips.scoreToHash
    else tips.scoreToHash.orderedInsert TipOrder (blueScore, hash)
  hashToScore := tips.hashToScore.insert hash blueScore
  knownScores := tips.knownScores.insert hash blueScore

def removeTip (tips : DagTipSet) (hash : Uint256) : DagTipSet :=
  match tips.hashToScore.lookup hash with
  | none => tips
  | some score =>
    { tips with
      scoreToHash := tips.scoreToHash.erase (score, hash)
      hashToScore := tips.hashToScore.erase hash }

def pruneKnownScores (tips : DagTipSet) (bestScore : Nat) : DagTipSet :=
  if bestScore ≤ knownScoresPruneDepth then tips
  else
    let stale := tips.knownScores.entries.filter fun entry =>
      entry.2 < bestScore - knownScoresPruneDepth && (tips.hashToScore.lookup entry.1).isNone
    { tips with knownScores := stale.foldl (fun known entry => known.erase entry.1) tips.knownScores }

def blockConnected (tips : DagTipSet) (blockHash : Uint256) (blueScore : Nat)
    (parents : List Uint256) : DagTipSet :=
  ((parents.foldl removeTip tips).insertTip blockHash blueScore).pruneKnownScores blueScore

def readdParent (tips : DagTipSet) (parent : Uint256) : DagTipSet :=
  if parent = 0 ∨ (tips.hashToScore.lookup parent).isSome then tips
  else
    match tips.knownScores.lookup parent with
    | none => tips
    | some score => tips.insertTip parent score

def blockDisconnected (tips : DagTipSet) (blockHash : Uint256) (parentHashes : List Uint256) :
    DagTipSet :=
  parentHashes.foldl readdParent (tips.removeTip blockHash)

def clear (_tips : DagTipSet) : DagTipSet := {}

def getMiningParents (tips : DagTipSet) (maxParents : UInt32) : List Uint256 :=
  (tips.scoreToHash.take maxParents.toNat).map Prod.snd

def isTip (tips : DagTipSet) (hash : Uint256) : Bool := (tips.hashToScore.lookup hash).isSome

def size (tips : DagTipSet) : Nat := tips.scoreToHash.length

/-! ## The ordered set is ordered -/

def Sorted (tips : DagTipSet) : Prop := tips.scoreToHash.Pairwise TipOrder

theorem tipOrder_trans {a b c : Nat × Uint256} (first : TipOrder a b) (second : TipOrder b c) :
    TipOrder a c := by
  rcases first with above | ⟨same, less⟩
  · rcases second with above' | ⟨same', _⟩
    · exact .inl (above'.trans above)
    · exact .inl (same' ▸ above)
  · rcases second with above' | ⟨same', less'⟩
    · exact .inl (same ▸ above')
    · exact .inr ⟨same.trans same', less.trans less'⟩

theorem tipOrder_total {a b : Nat × Uint256} (ne : a ≠ b) : TipOrder a b ∨ TipOrder b a := by
  rcases Nat.lt_trichotomy a.1 b.1 with below | same | above
  · exact .inr (.inl below)
  · rcases lt_trichotomy a.2 b.2 with less | equal | greater
    · exact .inl (.inr ⟨same, less⟩)
    · exact absurd (Prod.ext same equal) ne
    · exact .inr (.inr ⟨same.symm, greater⟩)
  · exact .inl (.inl above)

theorem tipOrder_irrefl (a : Nat × Uint256) : ¬ TipOrder a a := by
  rintro (above | ⟨_, less⟩)
  · exact lt_irrefl _ above
  · exact lt_irrefl _ less

theorem pairwise_orderedInsert {pair : Nat × Uint256} {pairs : List (Nat × Uint256)}
    (sorted : pairs.Pairwise TipOrder) (isNew : pair ∉ pairs) :
    (pairs.orderedInsert TipOrder pair).Pairwise TipOrder := by
  induction pairs with
  | nil => exact List.pairwise_singleton _ _
  | cons first rest ih =>
    rw [List.mem_cons, not_or] at isNew
    rw [List.pairwise_cons] at sorted
    rw [List.orderedInsert_cons]
    split
    next before =>
      refine List.pairwise_cons.mpr ⟨?_, List.pairwise_cons.mpr sorted⟩
      rw [List.forall_mem_cons]
      exact ⟨before, fun other mem => tipOrder_trans before (sorted.1 other mem)⟩
    next notBefore =>
      refine List.pairwise_cons.mpr ⟨?_, ih sorted.2 isNew.2⟩
      intro other mem
      rcases (List.mem_orderedInsert _).mp mem with rfl | old
      · exact (tipOrder_total isNew.1).resolve_left notBefore
      · exact sorted.1 other old

section Operations

variable {tips : DagTipSet}

theorem Sorted.nodup (sorted : tips.Sorted) : tips.scoreToHash.Nodup := by
  refine List.Pairwise.imp ?_ sorted
  rintro a _ before rfl
  exact tipOrder_irrefl a before

theorem Sorted.insertTip (sorted : tips.Sorted) (hash : Uint256) (blueScore : Nat) :
    (tips.insertTip hash blueScore).Sorted := by
  grind [Sorted, DagTipSet.insertTip, pairwise_orderedInsert]

theorem Sorted.removeTip (sorted : tips.Sorted) (hash : Uint256) :
    (tips.removeTip hash).Sorted := by
  unfold DagTipSet.removeTip
  split
  · exact sorted
  · exact List.Pairwise.sublist List.erase_sublist sorted

/-! ## The maps -/

@[simp] theorem scoreToHash_pruneKnownScores (bestScore : Nat) :
    (tips.pruneKnownScores bestScore).scoreToHash = tips.scoreToHash := by
  unfold pruneKnownScores
  split <;> rfl

@[simp] theorem hashToScore_pruneKnownScores (bestScore : Nat) :
    (tips.pruneKnownScores bestScore).hashToScore = tips.hashToScore := by
  unfold pruneKnownScores
  split <;> rfl

theorem lookup_insertTip (hash other : Uint256) (blueScore : Nat) :
    (tips.insertTip hash blueScore).hashToScore.lookup other
      = if other = hash then some blueScore else tips.hashToScore.lookup other := by
  show (tips.hashToScore.insert hash blueScore).lookup other = _
  grind [AList.lookup_insert, AList.lookup_insert_ne]

theorem lookup_removeTip (hash other : Uint256) :
    (tips.removeTip hash).hashToScore.lookup other
      = if other = hash then none else tips.hashToScore.lookup other := by
  grind [removeTip, AList.lookup_erase, AList.lookup_erase_ne]

theorem lookup_removeTips (parents : List Uint256) (other : Uint256) :
    (parents.foldl removeTip tips).hashToScore.lookup other
      = if other ∈ parents then none else tips.hashToScore.lookup other := by
  induction parents generalizing tips with
  | nil => simp
  | cons parent rest ih => grind [List.foldl_cons, lookup_removeTip]

theorem lookup_blockConnected (blockHash other : Uint256) (blueScore : Nat)
    (parents : List Uint256) :
    (tips.blockConnected blockHash blueScore parents).hashToScore.lookup other =
      if other = blockHash then some blueScore
      else if other ∈ parents then none else tips.hashToScore.lookup other := by
  rw [blockConnected, hashToScore_pruneKnownScores, lookup_insertTip, lookup_removeTips]

/-! ## The ordered set and the map -/

def Mirrors (tips : DagTipSet) : Prop :=
  ∀ score hash, (score, hash) ∈ tips.scoreToHash ↔ tips.hashToScore.lookup hash = some score

theorem mem_insertTip (hash : Uint256) (blueScore : Nat) (pair : Nat × Uint256) :
    pair ∈ (tips.insertTip hash blueScore).scoreToHash
      ↔ pair = (blueScore, hash) ∨ pair ∈ tips.scoreToHash := by
  grind [insertTip, List.mem_orderedInsert]

theorem Mirrors.removeTip (mirrors : tips.Mirrors) (sorted : tips.Sorted) (hash : Uint256) :
    (tips.removeTip hash).Mirrors := by
  intro score other
  rw [lookup_removeTip]
  unfold DagTipSet.removeTip
  split
  next absent =>
    rw [mirrors score other]
    split
    next same => rw [same, absent]
    · rfl
  next old found =>
    rw [sorted.nodup.mem_erase_iff, mirrors score other]
    split
    · grind
    · grind

theorem mirrors_insertTip_iff (mirrors : tips.Mirrors) (hash : Uint256) (blueScore : Nat) :
    (tips.insertTip hash blueScore).Mirrors
      ↔ ∀ score, tips.hashToScore.lookup hash = some score → score = blueScore := by
  constructor
  · intro later score found
    have stays : (score, hash) ∈ (tips.insertTip hash blueScore).scoreToHash :=
      (mem_insertTip ..).mpr (.inr ((mirrors score hash).mpr found))
    rw [later score hash, lookup_insertTip, if_pos rfl] at stays
    exact (Option.some.inj stays).symm
  · intro same score other
    rw [mem_insertTip, lookup_insertTip, mirrors score other, Prod.mk.injEq]
    grind

theorem Mirrors.readdParent (mirrors : tips.Mirrors) (parent : Uint256) :
    (tips.readdParent parent).Mirrors := by
  unfold DagTipSet.readdParent
  split
  · exact mirrors
  next notTip =>
    split
    · exact mirrors
    next known =>
      rw [mirrors_insertTip_iff mirrors]
      intro score found
      refine absurd (Or.inr ?_) notTip
      rw [found]
      rfl

theorem Sorted.readdParent (sorted : tips.Sorted) (parent : Uint256) :
    (tips.readdParent parent).Sorted := by
  unfold DagTipSet.readdParent
  split
  · exact sorted
  · split
    · exact sorted
    · exact sorted.insertTip _ _

/-! ## Sequences of operations -/

inductive TipOp where
  | blockConnected (blockHash : Uint256) (blueScore : Nat) (parents : List Uint256)
  | blockDisconnected (blockHash : Uint256) (parentHashes : List Uint256)
  | clear
deriving DecidableEq, Repr

def apply (tips : DagTipSet) : TipOp → DagTipSet
  | .blockConnected blockHash blueScore parents => tips.blockConnected blockHash blueScore parents
  | .blockDisconnected blockHash parentHashes => tips.blockDisconnected blockHash parentHashes
  | .clear => tips.clear

def KeepsScore (tips : DagTipSet) : TipOp → Prop
  | .blockConnected blockHash blueScore parents =>
    blockHash ∈ parents ∨
      ∀ score, tips.hashToScore.lookup blockHash = some score → score = blueScore
  | .blockDisconnected _ _ => True
  | .clear => True

theorem sorted_removeTips (sorted : tips.Sorted) (parents : List Uint256) :
    (parents.foldl DagTipSet.removeTip tips).Sorted :=
  invariant Sorted (fun _ hash sorted => sorted.removeTip hash) sorted

theorem mirrors_removeTips (sorted : tips.Sorted) (mirrors : tips.Mirrors)
    (parents : List Uint256) : (parents.foldl DagTipSet.removeTip tips).Mirrors := by
  refine (invariant (fun tips : DagTipSet => tips.Sorted ∧ tips.Mirrors) ?_ ⟨sorted, mirrors⟩).2
  rintro tips hash ⟨sorted, mirrors⟩
  exact ⟨sorted.removeTip hash, mirrors.removeTip sorted hash⟩

theorem Sorted.apply (sorted : tips.Sorted) (op : TipOp) : (tips.apply op).Sorted := by
  cases op with
  | blockConnected blockHash blueScore parents =>
    show (pruneKnownScores _ _).scoreToHash.Pairwise TipOrder
    rw [scoreToHash_pruneKnownScores]
    exact (sorted_removeTips sorted parents).insertTip _ _
  | blockDisconnected blockHash parentHashes =>
    exact invariant Sorted (fun _ parent sorted => sorted.readdParent parent)
      (sorted.removeTip blockHash)
  | clear => exact List.Pairwise.nil

theorem mirrors_apply_iff (sorted : tips.Sorted) (mirrors : tips.Mirrors) (op : TipOp) :
    (tips.apply op).Mirrors ↔ tips.KeepsScore op := by
  cases op with
  | blockConnected blockHash blueScore parents =>
    have pruned : (tips.apply (.blockConnected blockHash blueScore parents)).Mirrors
        ↔ ((parents.foldl DagTipSet.removeTip tips).insertTip blockHash blueScore).Mirrors := by
      simp only [Mirrors, apply, blockConnected, scoreToHash_pruneKnownScores,
        hashToScore_pruneKnownScores]
    rw [pruned, mirrors_insertTip_iff (mirrors_removeTips sorted mirrors parents)]
    simp only [lookup_removeTips, KeepsScore]
    by_cases own : blockHash ∈ parents
    · simp [own]
    · simp [own]
  | blockDisconnected blockHash parentHashes =>
    refine iff_of_true ?_ trivial
    exact invariant Mirrors (fun _ parent mirrors => mirrors.readdParent parent)
      (mirrors.removeTip sorted blockHash)
  | clear =>
    refine iff_of_true (fun score hash => ?_) trivial
    exact iff_of_false List.not_mem_nil nofun

/-! ## Size and mining parents -/

def rank (tips : DagTipSet) (hash : Uint256) : Nat × Uint256 :=
  ((tips.hashToScore.lookup hash).getD 0, hash)

structure Represented (tips : DagTipSet) : Prop where
  mirrors : ∀ score hash, (score, hash) ∈ tips.scoreToHash
    ↔ tips.hashToScore.lookup hash = some score
  size : tips.size = {hash | tips.isTip hash = true}.ncard
  length : ∀ maxParents, (tips.getMiningParents maxParents).length = min maxParents.toNat tips.size
  nodup : ∀ maxParents, (tips.getMiningParents maxParents).Nodup
  isTip : ∀ maxParents, ∀ hash ∈ tips.getMiningParents maxParents, tips.isTip hash = true
  ordered : ∀ maxParents, (tips.getMiningParents maxParents).Pairwise
    fun a b => TipOrder (tips.rank a) (tips.rank b)

theorem Mirrors.rank_eq (mirrors : tips.Mirrors) {pair : Nat × Uint256}
    (mem : pair ∈ tips.scoreToHash) : tips.rank pair.2 = pair := by
  rw [rank, (mirrors pair.1 pair.2).mp mem]
  rfl

theorem Mirrors.nodup_hashes (mirrors : tips.Mirrors) (sorted : tips.Sorted) :
    (tips.scoreToHash.map Prod.snd).Nodup := by
  refine List.Nodup.map_on ?_ sorted.nodup
  intro a aMem b bMem same
  rw [← mirrors.rank_eq aMem, ← mirrors.rank_eq bMem, same]

theorem Mirrors.isTip_iff (mirrors : tips.Mirrors) (hash : Uint256) :
    tips.isTip hash = true ↔ hash ∈ tips.scoreToHash.map Prod.snd := by
  rw [DagTipSet.isTip, Option.isSome_iff_exists, List.mem_map]
  constructor
  · rintro ⟨score, found⟩
    exact ⟨(score, hash), (mirrors score hash).mpr found, rfl⟩
  · rintro ⟨⟨score, _⟩, mem, rfl⟩
    exact ⟨score, (mirrors score _).mp mem⟩

theorem Mirrors.represented (mirrors : tips.Mirrors) (sorted : tips.Sorted) :
    tips.Represented := by
  have hashes := mirrors.nodup_hashes sorted
  have taken : ∀ maxParents, (tips.getMiningParents maxParents).Sublist
      (tips.scoreToHash.map Prod.snd) :=
    fun maxParents => (List.take_sublist _ _).map _
  refine ⟨mirrors, ?_, ?_, ?_, ?_, ?_⟩
  · have counted : {hash | tips.isTip hash = true}
        = ((tips.scoreToHash.map Prod.snd).toFinset : Set Uint256) := by
      ext hash
      rw [Set.mem_ofPred_eq, mirrors.isTip_iff, Finset.mem_coe, List.mem_toFinset]
    rw [counted, Set.ncard_coe_finset, List.toFinset_card_of_nodup hashes, List.length_map, size]
  · intro maxParents
    rw [getMiningParents, List.length_map, List.length_take, size]
  · exact fun maxParents => hashes.sublist (taken maxParents)
  · intro maxParents hash mem
    exact (mirrors.isTip_iff hash).mpr ((taken maxParents).subset mem)
  · intro maxParents
    rw [getMiningParents, List.pairwise_map]
    refine List.Pairwise.imp_of_mem ?_ (List.Pairwise.sublist (List.take_sublist _ _) sorted)
    intro a b aMem bMem before
    rwa [mirrors.rank_eq (List.mem_of_mem_take aMem), mirrors.rank_eq (List.mem_of_mem_take bMem)]

end Operations

/-- **The tip set is represented in all states of a sequence of operations** exactly when no
operation connects a tip again with another score. -/
theorem represented_throughout_iff (ops : List TipOp) :
    (∀ done, done <+: ops → (done.foldl apply {}).Represented) ↔
      StepsMeet apply KeepsScore {} ops := by
  have whole : ∀ tips : DagTipSet, tips.Sorted → (tips.Represented ↔ tips.Mirrors) :=
    fun tips sorted => ⟨Represented.mirrors, fun mirrors => mirrors.represented sorted⟩
  have empty : Mirrors {} := fun score hash => iff_of_false List.not_mem_nil nofun
  refine holds_throughout_iff Sorted (fun _ op sorted => sorted.apply op) ?_ List.Pairwise.nil
    (empty.represented List.Pairwise.nil)
  intro tips op sorted represented
  rw [whole _ (sorted.apply op)]
  exact mirrors_apply_iff sorted ((whole tips sorted).mp represented) op

/-- The body of `3` is accepted with score 1 before that of its parent `2`; it is pruned, asked
for again and now has score 2.  It is one tip, listed twice. -/
theorem reconnected_tip_twice :
    let tips := [TipOp.blockConnected 3 1 [2], .blockConnected 2 1 [1],
      .blockConnected 3 2 [2]].foldl apply {}
    tips.scoreToHash = [(2, 3), (1, 3)] ∧ tips.size = 2 ∧ tips.getMiningParents 2 = [3, 3] ∧
      (∀ hash, tips.isTip hash = true ↔ hash = 3) ∧ ¬ tips.Represented := by
  intro tips
  have listed : tips.getMiningParents 2 = [3, 3] := by decide +kernel
  refine ⟨by decide +kernel, by decide +kernel, listed, ?_, ?_⟩
  · intro hash
    simp only [tips, List.foldl_cons, List.foldl_nil, apply, isTip, lookup_blockConnected]
    by_cases same : hash = 3
    · simp [same]
    · by_cases parent : hash = 2
      · simp [parent]
      · by_cases genesis : hash = 1
        · simp [genesis]
        · simp [same, parent, genesis]
  · intro represented
    have distinct := represented.nodup 2
    rw [listed] at distinct
    exact absurd distinct (by decide)

end DagTipSet

end QuantBTC.Dag
