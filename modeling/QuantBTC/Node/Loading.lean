/-
# Node.Loading -- a loaded block index

The loop of `LoadBlockIndex` goes through the entries by height and stops at a gap.  Every
entry but the genesis block has its previous block, one lower, among them, so there is none.
-/
import QuantBTC.Node.DirtyMarks
import QuantBTC.Node.NodeDag
import QuantBTC.Theory.Staircase

namespace QuantBTC.Node

set_option autoImplicit false

open Primitives Dag

namespace ChainstateManager

variable {env : ChainEnv}

/-! ## Linking -/

variable (chainman : ChainstateManager) (hash : Uint256)

theorem linkEntry_keeps : Keeps env chainman (chainman.linkEntry hash) := by
  unfold linkEntry
  split
  · exact .refl env _
  · have counted : ∀ (prev : Option CBlockIndex) (blocksUnlinked : List (Uint256 × Uint256)),
        Keeps env chainman { chainman with
          blockIndex := chainman.blockIndex.modify hash (linked prev), blocksUnlinked } :=
      fun prev _ => .modify rfl (List.Subset.refl _) (fun _ => rfl) (.inr fun _ => rfl)
        fun _ _ _ mem => .inl mem
    dsimp only
    split
    · exact (counted _ _).trans (.modifyDirty (fun _ => rfl) fun _ => rfl)
    · exact counted _ _

theorem nodeDag_modify_eq (index : BlockMap) (hash : Uint256) (change : CBlockIndex → CBlockIndex)
    (entry : ∀ pindex, (change pindex).dagEntry = pindex.dagEntry)
    (stored : ∀ pindex, (change pindex).nStatus.haveData = pindex.nStatus.haveData) :
    (index.modify hash change).nodeDag = index.nodeDag := by
  cases found : index.lookup hash with
  | none => rw [BlockMap.modify, found]
  | some pindex =>
    rw [BlockMap.nodeDag_modify_set found _ (stored pindex), entry]
    exact NodeDag.set_self (BlockMap.view_of_lookup found)

theorem linkEntry_nodeDag :
    (chainman.linkEntry hash).blockIndex.nodeDag = chainman.blockIndex.nodeDag := by
  unfold linkEntry
  split
  · rfl
  · have counted : ∀ prev : Option CBlockIndex,
        (chainman.blockIndex.modify hash (linked prev)).nodeDag = chainman.blockIndex.nodeDag :=
      fun prev => nodeDag_modify_eq _ _ _ (fun _ => rfl) fun _ => rfl
    dsimp only
    split
    · exact (nodeDag_modify_eq _ hash CBlockIndex.setFailedChild (fun _ => rfl)
        fun _ => rfl).trans (counted _)
    · exact counted _

theorem linkEntry_sameHeaders :
    chainman.blockIndex.SameHeaders (chainman.linkEntry hash).blockIndex := by
  unfold linkEntry
  split
  · exact .refl _
  · have counted : ∀ prev : Option CBlockIndex,
        chainman.blockIndex.SameHeaders (chainman.blockIndex.modify hash (linked prev)) :=
      fun prev => .modify fun _ _ => rfl
    dsimp only
    split
    · exact (counted _).trans (.modify fun _ _ => rfl)
    · exact counted _

theorem heightOf_eq (index : BlockMap) (hash : Uint256) :
    heightOf index hash = index.nodeDag.view.heightOf hash := by
  simp only [heightOf, DagView.heightOf, BlockMap.nodeDag, BlockMap.dagView]
  cases index.lookup hash with
  | none => rfl
  | some pindex => rfl

theorem linkSorted_spec (env : ChainEnv) (previous : Option Nat) (hashes : List Uint256)
    (chainman : ChainstateManager)
    (noGap : (previous.toList ++ hashes.map (heightOf chainman.blockIndex)).IsChain
      fun a b => b ≤ a + 1) :
    ∃ later, linkSorted previous hashes chainman = some later ∧ Keeps env chainman later ∧
      later.blockIndex.nodeDag = chainman.blockIndex.nodeDag ∧
      chainman.blockIndex.SameHeaders later.blockIndex := by
  induction hashes generalizing previous chainman with
  | nil => exact ⟨chainman, rfl, .refl env _, rfl, .refl _⟩
  | cons hash rest ih =>
    have heights : heightOf (chainman.linkEntry hash).blockIndex = heightOf chainman.blockIndex := by
      funext other
      rw [heightOf_eq, linkEntry_nodeDag, ← heightOf_eq]
    have tail : ((some (heightOf chainman.blockIndex hash)).toList ++
        rest.map (heightOf (chainman.linkEntry hash).blockIndex)).IsChain fun a b => b ≤ a + 1 := by
      rw [heights]
      exact noGap.right_of_append
    obtain ⟨later, loaded, keeps, dag, headers⟩ := ih _ _ tail
    refine ⟨later, ?_, (linkEntry_keeps chainman hash).trans keeps,
      dag.trans (linkEntry_nodeDag chainman hash),
      (linkEntry_sameHeaders chainman hash).trans headers⟩
    have step : ¬ previous.any (· + 1 < heightOf chainman.blockIndex hash) := by
      cases previous with
      | none => exact Bool.false_ne_true
      | some nHeight => grind
    rwa [linkSorted, if_neg step]

theorem sortedByHeight_noGap {index : BlockMap} (consistent : Consistent env index.find) :
    ((sortedByHeight index).map (heightOf index)).IsChain fun a b => b ≤ a + 1 := by
  have mem : ∀ hash, hash ∈ sortedByHeight index ↔ (index.lookup hash).isSome := by
    intro hash
    rw [sortedByHeight, List.mem_insertionSort, AList.lookup_isSome]
    exact Iff.rfl
  refine Theory.Staircase.isChain ?_ fun n above => ?_
  · rw [List.pairwise_map]
    exact List.pairwise_insertionSort (r := fun a b => heightOf index a ≤ heightOf index b) _
  · obtain ⟨hash, isKey, height⟩ := List.mem_map.mp above
    obtain ⟨pindex, found⟩ := Option.isSome_iff_exists.mp ((mem hash).mp isKey)
    have value : pindex.nHeight = n + 1 := by rwa [heightOf, found] at height
    rcases (consistent hash pindex found).prev with ⟨_, zero⟩ | ⟨hashPrev, prev, _, foundPrev, up⟩
    · omega
    · refine List.mem_map.mpr ⟨hashPrev, (mem hashPrev).mpr ?_, ?_⟩
      · rw [show index.lookup hashPrev = some prev from foundPrev]
        rfl
      · rw [heightOf, show index.lookup hashPrev = some prev from foundPrev, Option.elim_some]
        omega

/-! ## Loading -/

structure LoadedFrom (env : ChainEnv) (db : BlockTreeDB) (loaded : ChainstateManager) : Prop where
  consistent : Consistent env loaded.blockIndex.find
  grows : Grows db.restored loaded.blockIndex.find
  clean : ∀ hash, hash ∉ loaded.dirtyBlockindex →
    (loaded.blockIndex.find hash).map CBlockIndex.written
      = (db.restored hash).map CBlockIndex.written
  view : ∀ hash, loaded.blockIndex.nodeDag.view hash = (db.restored hash).map CBlockIndex.dagEntry
  stored : ∀ hash, loaded.blockIndex.nodeDag.stored hash
    = (db.restored hash).any (·.nStatus.haveData)

variable {db : BlockTreeDB}

theorem loadBlockIndex_spec (consistent : Consistent env db.restored)
    (passes : ∀ hash diskindex, db.lookup hash = some diskindex → passesLoad env diskindex) :
    ∃ loaded, loadBlockIndex env db = some loaded ∧ LoadedFrom env db loaded := by
  obtain ⟨index, guts, entries⟩ := loadBlockIndexGuts_spec consistent passes
  have find : index.find = db.restored := funext entries
  have indexOk : Consistent env index.find := find ▸ consistent
  obtain ⟨loaded, linked, keeps, dag, _⟩ := linkSorted_spec env none (sortedByHeight index)
    { blockIndex := index } (sortedByHeight_noGap indexOk)
  refine ⟨loaded, by rw [loadBlockIndex, guts]; exact linked, keeps.consistent indexOk, ?_, ?_, ?_, ?_⟩
  · exact find ▸ keeps.grows
  · exact find ▸ keeps.clean
  · intro hash
    rw [dag, ← find]
    rfl
  · intro hash
    rw [dag, ← find]
    rfl

variable {loaded : ChainstateManager}

theorem passesLoad_of_loadBlockIndex (isLoaded : loadBlockIndex env db = some loaded)
    {hash : Uint256} {diskindex : CDiskBlockIndex} (found : db.lookup hash = some diskindex) :
    passesLoad env diskindex := by
  obtain ⟨index, guts, _⟩ := Option.bind_eq_some_iff.mp isLoaded
  exact passesLoad_of_loaded guts diskindex (mem_records.mpr ⟨hash, found⟩)

theorem loadBlockIndex_headers (consistent : Consistent env db.restored)
    (isLoaded : loadBlockIndex env db = some loaded) (hash : Uint256) :
    (loaded.blockIndex.find hash).map CBlockIndex.getBlockHeader
      = (db.restored hash).map CBlockIndex.getBlockHeader := by
  obtain ⟨index, guts, entries⟩ := loadBlockIndexGuts_spec consistent
    fun hash diskindex found => passesLoad_of_loadBlockIndex isLoaded found
  have find : index.find = db.restored := funext entries
  obtain ⟨later, linked, _, _, headers⟩ := linkSorted_spec env none (sortedByHeight index)
    { blockIndex := index } (sortedByHeight_noGap (find ▸ consistent))
  rw [loadBlockIndex, guts] at isLoaded
  cases linked.symm.trans isLoaded
  rw [← find]
  exact headers hash

end ChainstateManager

end QuantBTC.Node
