/-
# Dag.TipUndo -- connecting a block and disconnecting it again

`BlockDisconnected` gives the tip status back to every listed parent whose score is still
remembered.  It cannot see which parents were tips before the block was connected, and the
scores of those that were may have been pruned by the connection itself.
-/
import QuantBTC.Dag.TipSet

namespace QuantBTC.Dag

set_option autoImplicit false

open Primitives
open QuantBTC.Theory.Runs (invariant)

namespace DagTipSet

variable {tips later : DagTipSet}

/-! ## Remembered scores -/

@[simp] theorem knownScores_removeTip (hash : Uint256) :
    (tips.removeTip hash).knownScores = tips.knownScores := by
  unfold removeTip
  split <;> rfl

@[simp] theorem knownScores_removeTips (parents : List Uint256) :
    (parents.foldl removeTip tips).knownScores = tips.knownScores := by
  induction parents generalizing tips with
  | nil => rfl
  | cons parent rest ih => rw [List.foldl_cons, ih, knownScores_removeTip]

theorem lookup_eraseAll (stale : List ((_ : Uint256) × Nat)) (known : AList fun _ : Uint256 => Nat)
    (hash : Uint256) :
    (stale.foldl (fun known entry => known.erase entry.1) known).lookup hash
      = if hash ∈ stale.map Sigma.fst then none else known.lookup hash := by
  induction stale generalizing known with
  | nil => simp
  | cons entry rest ih =>
    rw [List.foldl_cons, ih, List.map_cons]
    by_cases same : hash = entry.1
    · rw [if_pos (List.mem_cons.mpr (.inl same)), same, AList.lookup_erase, ite_self]
    · simp only [AList.lookup_erase_ne same, List.mem_cons, same, false_or]

def Stale (bestScore score : Nat) : Prop :=
  knownScoresPruneDepth < bestScore ∧ score < bestScore - knownScoresPruneDepth

instance (bestScore score : Nat) : Decidable (Stale bestScore score) :=
  inferInstanceAs (Decidable (_ ∧ _))

theorem lookup_pruneKnownScores (bestScore : Nat) (hash : Uint256) (score : Nat) :
    (tips.pruneKnownScores bestScore).knownScores.lookup hash = some score ↔
      tips.knownScores.lookup hash = some score ∧
        ¬(Stale bestScore score ∧ tips.hashToScore.lookup hash = none) := by
  unfold pruneKnownScores Stale
  split
  · grind
  next deep =>
    rw [lookup_eraseAll]
    have listed : hash ∈ (tips.knownScores.entries.filter fun entry =>
      entry.2 < bestScore - knownScoresPruneDepth &&
        (tips.hashToScore.lookup entry.1).isNone).map Sigma.fst ↔
      ∃ known, tips.knownScores.lookup hash = some known ∧
        known < bestScore - knownScoresPruneDepth ∧ tips.hashToScore.lookup hash = none := by
      simp only [List.mem_map, List.mem_filter, Bool.and_eq_true, decide_eq_true_eq,
        Option.isNone_iff_eq_none]
      constructor
      · rintro ⟨⟨_, known⟩, ⟨listed, below, noTip⟩, rfl⟩
        exact ⟨known, AList.mem_lookup_iff.mpr listed, below, noTip⟩
      · rintro ⟨known, found, below, noTip⟩
        exact ⟨⟨hash, known⟩, ⟨AList.mem_lookup_iff.mp found, below, noTip⟩, rfl⟩
    split
    · grind
    · grind

theorem known_blockConnected {blockHash parent : Uint256} {blueScore score : Nat}
    {parents : List Uint256} (other : parent ≠ blockHash) (listed : parent ∈ parents) :
    (tips.blockConnected blockHash blueScore parents).knownScores.lookup parent = some score ↔
      tips.knownScores.lookup parent = some score ∧ ¬Stale blueScore score := by
  have removed : ((parents.foldl removeTip tips).insertTip blockHash blueScore).hashToScore.lookup
      parent = none := by
    rw [lookup_insertTip, if_neg other, lookup_removeTips, if_pos listed]
  have remembered : ((parents.foldl removeTip tips).insertTip blockHash
      blueScore).knownScores.lookup parent = tips.knownScores.lookup parent := by
    show ((parents.foldl removeTip tips).knownScores.insert blockHash blueScore).lookup parent = _
    rw [AList.lookup_insert_ne other, knownScores_removeTips]
  rw [blockConnected, lookup_pruneKnownScores, remembered]
  simp [removed]

/-! ## The loops -/

theorem mem_removeTips (sorted : tips.Sorted) (parents : List Uint256) (pair : Nat × Uint256) :
    pair ∈ (parents.foldl removeTip tips).scoreToHash ↔
      pair ∈ tips.scoreToHash ∧
        ¬(pair.2 ∈ parents ∧ tips.hashToScore.lookup pair.2 = some pair.1) := by
  induction parents generalizing tips with
  | nil => simp
  | cons parent rest ih =>
      have one : pair ∈ (tips.removeTip parent).scoreToHash ↔ pair ∈ tips.scoreToHash ∧
          ¬(pair.2 = parent ∧ tips.hashToScore.lookup pair.2 = some pair.1) := by
        unfold removeTip
        split
        · next absent =>
            refine (and_iff_left ?_).symm
            rintro ⟨rfl, found⟩
            rw [absent] at found
            cases found
        · next score found =>
            dsimp only
            rw [sorted.nodup.mem_erase_iff, and_comm]
            refine and_congr_right fun _ => not_congr ?_
            constructor
            · rintro rfl
              exact ⟨rfl, found⟩
            · rintro ⟨rfl, found'⟩
              rw [found] at found'
              exact Prod.ext (Option.some.inj found').symm rfl
      rw [List.foldl_cons, ih (sorted.removeTip parent), one, lookup_removeTip, List.mem_cons]
      by_cases same : pair.2 = parent
      · simp [same]
      · simp [same]

theorem lookup_readdParent (parent hash : Uint256) :
    (tips.readdParent parent).hashToScore.lookup hash =
      (tips.hashToScore.lookup hash).or
        (if hash = parent ∧ hash ≠ 0 then tips.knownScores.lookup hash else none) := by
  unfold readdParent
  split
  next skipped =>
    cases found : tips.hashToScore.lookup hash with
    | some score => rfl
    | none => grind
  next goesOn =>
    rw [not_or, Option.not_isSome_iff_eq_none] at goesOn
    split
    · grind
    next score known =>
      rw [lookup_insertTip]
      by_cases same : hash = parent
      · subst same
        simp [goesOn, known]
      · simp [same]

theorem known_readdParent (parent hash : Uint256) :
    (tips.readdParent parent).knownScores.lookup hash = tips.knownScores.lookup hash := by
  unfold readdParent
  split
  · rfl
  · split
    · rfl
    next score known =>
      show (tips.knownScores.insert parent score).lookup hash = _
      by_cases same : hash = parent
      · rw [same, AList.lookup_insert, known]
      · rw [AList.lookup_insert_ne same]

theorem mem_readdParent (parent : Uint256) (pair : Nat × Uint256) :
    pair ∈ (tips.readdParent parent).scoreToHash ↔ pair ∈ tips.scoreToHash ∨
      (pair.2 = parent ∧ pair.2 ≠ 0 ∧ tips.hashToScore.lookup pair.2 = none ∧
        tips.knownScores.lookup pair.2 = some pair.1) := by
  unfold readdParent
  split
  · grind
  next goesOn =>
    rw [not_or, Option.not_isSome_iff_eq_none] at goesOn
    split
    · grind
    next score known =>
      rw [mem_insertTip, or_comm]
      refine or_congr_right ?_
      constructor
      · rintro rfl
        exact ⟨rfl, goesOn.1, goesOn.2, known⟩
      · grind

theorem readdParents_spec (parents : List Uint256) :
    (∀ hash, (parents.foldl readdParent tips).hashToScore.lookup hash =
        (tips.hashToScore.lookup hash).or
          (if hash ∈ parents ∧ hash ≠ 0 then tips.knownScores.lookup hash else none)) ∧
      ∀ pair, pair ∈ (parents.foldl readdParent tips).scoreToHash ↔ pair ∈ tips.scoreToHash ∨
        (pair.2 ∈ parents ∧ pair.2 ≠ 0 ∧ tips.hashToScore.lookup pair.2 = none ∧
          tips.knownScores.lookup pair.2 = some pair.1) := by
  induction parents generalizing tips with
  | nil => simp
  | cons parent rest ih =>
    obtain ⟨scores, pairs⟩ := @ih (tips.readdParent parent)
    rw [List.foldl_cons]
    refine ⟨fun hash => ?_, fun pair => ?_⟩
    · rw [scores, lookup_readdParent, known_readdParent]
      cases tips.hashToScore.lookup hash with
      | some score => rfl
      | none =>
        by_cases same : hash = parent
        · subst same
          by_cases null : hash = 0
          · simp [null]
          · cases tips.knownScores.lookup hash <;> simp [null]
        · simp [same]
    · rw [pairs, mem_readdParent, lookup_readdParent, known_readdParent]
      by_cases same : pair.2 = parent
      · subst same
        by_cases null : pair.2 = 0
        · simp [null]
        · cases noTip : tips.hashToScore.lookup pair.2 with
          | some score => simp
          | none =>
            cases known : tips.knownScores.lookup pair.2 with
            | none => simp
            | some score => simp [null]
      · simp [same]

/-! ## Sequences of connections -/

structure ConnectCall where
  blockHash : Uint256
  blueScore : Nat
  parents : List Uint256
deriving DecidableEq, Repr

def connect (tips : DagTipSet) (call : ConnectCall) : DagTipSet :=
  tips.blockConnected call.blockHash call.blueScore call.parents

structure ConnectInv (blocks : List Uint256) (tips : DagTipSet) : Prop where
  sorted : tips.Sorted
  listed : ∀ hash score, tips.hashToScore.lookup hash = some score →
    (score, hash) ∈ tips.scoreToHash
  remembered : ∀ hash score, tips.hashToScore.lookup hash = some score →
    tips.knownScores.lookup hash = some score
  connected : ∀ pair ∈ tips.scoreToHash, pair.2 ∈ blocks

theorem ConnectInv.connect {blocks : List Uint256} (inv : ConnectInv blocks tips)
    (call : ConnectCall) : ConnectInv (call.blockHash :: blocks) (tips.connect call) := by
  have pairs : ∀ pair, pair ∈ (tips.connect call).scoreToHash ↔
      pair = (call.blueScore, call.blockHash) ∨ pair ∈ tips.scoreToHash ∧
        ¬(pair.2 ∈ call.parents ∧ tips.hashToScore.lookup pair.2 = some pair.1) := by
    intro pair
    rw [DagTipSet.connect, blockConnected, scoreToHash_pruneKnownScores, mem_insertTip,
      mem_removeTips inv.sorted]
  refine ⟨inv.sorted.apply (.blockConnected call.blockHash call.blueScore call.parents), ?_, ?_, ?_⟩
  · intro hash score isTip
    rw [DagTipSet.connect, lookup_blockConnected] at isTip
    rw [pairs]
    split_ifs at isTip with same parent
    · exact .inl (Prod.ext (Option.some.inj isTip).symm same)
    · exact .inr ⟨inv.listed hash score isTip, fun both => parent both.1⟩
  · intro hash score isTip
    have tip : ((call.parents.foldl removeTip tips).insertTip call.blockHash
        call.blueScore).hashToScore.lookup hash = some score := by
      rw [← isTip, DagTipSet.connect, blockConnected, hashToScore_pruneKnownScores]
    rw [DagTipSet.connect, blockConnected, lookup_pruneKnownScores, tip]
    refine ⟨?_, fun both => by cases both.2⟩
    rw [lookup_insertTip, lookup_removeTips] at tip
    show ((call.parents.foldl removeTip tips).knownScores.insert call.blockHash
      call.blueScore).lookup hash = some score
    split_ifs at tip with same parent
    · rw [same, AList.lookup_insert, tip]
    · rw [AList.lookup_insert_ne same, knownScores_removeTips]
      exact inv.remembered hash score tip
  · intro pair mem
    rcases (pairs pair).mp mem with rfl | ⟨old, _⟩
    · exact List.mem_cons_self
    · exact List.mem_cons_of_mem _ (inv.connected pair old)

theorem connectInv_run (calls : List ConnectCall) :
    ConnectInv (calls.reverse.map ConnectCall.blockHash) (calls.foldl connect {}) := by
  induction calls using List.reverseRecOn with
  | nil => exact ⟨List.Pairwise.nil, nofun, nofun, nofun⟩
  | append_singleton calls call ih =>
    rw [List.foldl_append, List.reverse_append]
    exact ih.connect call

structure SameTips (later tips : DagTipSet) : Prop where
  scores : ∀ hash, later.hashToScore.lookup hash = tips.hashToScore.lookup hash
  ordered : later.scoreToHash = tips.scoreToHash

def Restorable (tips : DagTipSet) (blueScore : Nat) (parent : Uint256) : Prop :=
  match tips.hashToScore.lookup parent with
  | some score => parent ≠ 0 ∧ ¬Stale blueScore score
  | none => parent = 0 ∨ ∀ score ∈ tips.knownScores.lookup parent, Stale blueScore score

instance (tips : DagTipSet) (blueScore : Nat) (parent : Uint256) :
    Decidable (tips.Restorable blueScore parent) := by
  unfold Restorable
  split <;> infer_instance

theorem Sorted.eq_of_mem_iff (sorted : later.Sorted) (sorted' : tips.Sorted)
    (same : ∀ pair, pair ∈ later.scoreToHash ↔ pair ∈ tips.scoreToHash) :
    later.scoreToHash = tips.scoreToHash := by
  refine List.Perm.eq_of_pairwise ?_ sorted sorted'
    ((List.perm_ext_iff_of_nodup sorted.nodup sorted'.nodup).mpr same)
  intro a b _ _ before after
  exact absurd (tipOrder_trans before after) (tipOrder_irrefl a)

section Undo

variable {blocks : List Uint256} {blockHash : Uint256} {blueScore : Nat} {parents : List Uint256}

theorem ConnectInv.undone (inv : ConnectInv blocks tips) (isNew : blockHash ∉ blocks)
    (earlier : ∀ parent ∈ parents, parent ∈ blocks) :
    (∀ hash, ((tips.blockConnected blockHash blueScore parents).blockDisconnected blockHash
        parents).hashToScore.lookup hash =
      if hash ∈ parents then
        if hash ≠ 0 then
          (tips.blockConnected blockHash blueScore parents).knownScores.lookup hash
        else none
      else tips.hashToScore.lookup hash) ∧
    ∀ pair, pair ∈ ((tips.blockConnected blockHash blueScore parents).blockDisconnected blockHash
        parents).scoreToHash ↔
      (pair ∈ tips.scoreToHash ∧
        ¬(pair.2 ∈ parents ∧ tips.hashToScore.lookup pair.2 = some pair.1)) ∨
      (pair.2 ∈ parents ∧ pair.2 ≠ 0 ∧
        (tips.blockConnected blockHash blueScore parents).knownScores.lookup pair.2
          = some pair.1) := by
  have other : ∀ parent ∈ parents, parent ≠ blockHash := by
    rintro parent mem rfl
    exact isNew (earlier _ mem)
  have noTip : tips.hashToScore.lookup blockHash = none := by
    refine Option.eq_none_iff_forall_ne_some.mpr fun score found => ?_
    exact isNew (inv.connected _ (inv.listed _ _ found))
  have removed : ∀ hash, ((tips.blockConnected blockHash blueScore parents).removeTip
      blockHash).hashToScore.lookup hash =
        if hash ∈ parents then none else tips.hashToScore.lookup hash := by
    grind [lookup_removeTip, lookup_blockConnected]
  have left : ∀ pair, pair ∈ ((tips.blockConnected blockHash blueScore parents).removeTip
      blockHash).scoreToHash ↔ pair ∈ tips.scoreToHash ∧
        ¬(pair.2 ∈ parents ∧ tips.hashToScore.lookup pair.2 = some pair.1) := by
    intro pair
    have one := @mem_removeTips (tips.blockConnected blockHash blueScore parents)
      (inv.sorted.apply (.blockConnected blockHash blueScore parents)) [blockHash] pair
    rw [List.foldl_cons, List.foldl_nil] at one
    rw [one, lookup_blockConnected, blockConnected, scoreToHash_pruneKnownScores, mem_insertTip,
      mem_removeTips inv.sorted]
    constructor
    · rintro ⟨rfl | old, notBlock⟩
      · simp at notBlock
      · exact old
    · intro old
      refine ⟨.inr old, ?_⟩
      rintro ⟨same, _⟩
      rw [List.mem_singleton] at same
      exact isNew (same ▸ inv.connected pair old.1)
  obtain ⟨scores, pairs⟩ :=
    @readdParents_spec ((tips.blockConnected blockHash blueScore parents).removeTip blockHash)
      parents
  grind [blockDisconnected, knownScores_removeTip]

end Undo

end DagTipSet

end QuantBTC.Dag
