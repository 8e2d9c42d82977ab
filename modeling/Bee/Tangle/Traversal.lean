import Bee.Tangle.Tangle
import Bee.Lib.Search

namespace Bee

open AssocMap

/-!
# bee-tangle — walking the past cone of a block

`traversal::visit_parents_depth_first` walks from a root to its parents, depth first, with a
visited set: a block stored with its metadata that `matches` is passed to `apply` and its
parents are pushed; one that does not match goes to `else_apply`, and an id without block or
metadata to `missing_apply`.  The closures' effects are threaded through a state `s`.

The loop is `Search.run` with `visitParent` as its body, and the parents pushed do not depend
on the state (`visitParent_snd`).  So a walk that finishes has passed each block it can
reach from the root through matching blocks (`Walked`) to its closure exactly once
(`visitParentsDepthFirst_spec`), and it finishes once the fuel exceeds the number of parent
references of the stored blocks (`visitParentsDepthFirst_isSome`).
-/

namespace Tangle

/-- `Tangle::contains`: the block is stored. -/
def contains (t : Tangle) (blockId : BlockId) : Bool := decide (blockId ∈ t.blockIdToBlock)

/-- `Tangle::get_block_and_metadata`. -/
def getBlockAndMetadata (t : Tangle) (blockId : BlockId) : Option (Block × BlockMetadata) := do
  let block ← t.get blockId
  let metadata ← t.getMetadata blockId
  pure (block, metadata)

variable {σ : Type}

/-- The body of the walk's loop for a block met for the first time: the closure it goes to,
and the parents pushed. -/
def visitParent (t : Tangle) (isMatch : BlockId → Block → BlockMetadata → Bool)
    (apply elseApply : BlockId → Block → BlockMetadata → σ → σ) (missingApply : BlockId → σ → σ)
    (blockId : BlockId) (s : σ) : σ × List BlockId :=
  match t.getBlockAndMetadata blockId with
  | some (block, metadata) =>
    if isMatch blockId block metadata then (apply blockId block metadata s, block.parents.toList)
    else (elseApply blockId block metadata s, [])
  | none => (missingApply blockId s, [])

/-- `traversal::visit_parents_depth_first` from `root`, with the stack `[root]` and nothing
visited; `isMatch` is its `matches`.  `none` when `fuel` runs out. -/
def visitParentsDepthFirst (t : Tangle) (fuel : Nat) (root : BlockId)
    (isMatch : BlockId → Block → BlockMetadata → Bool)
    (apply elseApply : BlockId → Block → BlockMetadata → σ → σ) (missingApply : BlockId → σ → σ)
    (s : σ) : Option σ :=
  (Search.run (t.visitParent isMatch apply elseApply missingApply) fuel [root] ∅ s).map Prod.snd

/-- The parents the walk pushes from a block: those of a stored block that matches. -/
def walkParents (t : Tangle) (isMatch : BlockId → Block → BlockMetadata → Bool) (blockId : BlockId) :
    List BlockId :=
  match t.getBlockAndMetadata blockId with
  | some (block, metadata) => if isMatch blockId block metadata then block.parents.toList else []
  | none => []

/-- `y` is met by the walk from `root`: reached through the parents of matching blocks. -/
def Walked (t : Tangle) (isMatch : BlockId → Block → BlockMetadata → Bool) (root y : BlockId) : Prop :=
  Search.Reach (t.walkParents isMatch) [root] y

/-- The parent references of the stored blocks, which bound the walk. -/
def parentCount (t : Tangle) : Nat :=
  sumEntries (fun _ block => block.parents.toList.length) t.blockIdToBlock

section Walk

variable {t : Tangle} {isMatch : BlockId → Block → BlockMetadata → Bool}
  {apply elseApply : BlockId → Block → BlockMetadata → σ → σ} {missingApply : BlockId → σ → σ}

theorem contains_eq_false {b : BlockId} : t.contains b = false ↔ t.get b = none := by
  simp [contains, get, AList.lookup_eq_none]

theorem getBlockAndMetadata_eq_some {b : BlockId} {block : Block} {md : BlockMetadata} :
    t.getBlockAndMetadata b = some (block, md) ↔ t.get b = some block ∧ t.getMetadata b = some md := by
  unfold getBlockAndMetadata
  cases t.get b <;> cases t.getMetadata b <;> simp

/-- In a consistent tangle a block is missing from the walk exactly when it is not stored. -/
theorem Consistent.getBlockAndMetadata_eq_none (hc : t.Consistent) {b : BlockId} :
    t.getBlockAndMetadata b = none ↔ t.get b = none := by
  unfold getBlockAndMetadata
  cases hget : t.get b with
  | none => simp
  | some block =>
    have hmem : b ∈ t.blockIdToMetadata := (hc.metadata_iff b).mpr (mem_of_lookup_eq_some hget)
    obtain ⟨md, hmd⟩ := Option.isSome_iff_exists.mp (AList.lookup_isSome.mpr hmem)
    have hmd' : t.getMetadata b = some md := hmd
    simp [hmd']

@[simp] theorem visitParent_snd (b : BlockId) (s : σ) :
    (t.visitParent isMatch apply elseApply missingApply b s).2 = t.walkParents isMatch b := by
  unfold visitParent walkParents
  split
  · split <;> rfl
  · rfl

theorem Walked.root (root : BlockId) : t.Walked isMatch root root :=
  ⟨root, List.mem_singleton_self root, .refl⟩

/-- The walk goes on from a matching block to each of its parents. -/
theorem Walked.parent {root b p : BlockId} {block : Block} {md : BlockMetadata}
    (hb : t.Walked isMatch root b) (hget : t.getBlockAndMetadata b = some (block, md))
    (hmatch : isMatch b block md = true) (hp : p ∈ block.parents.toList) : t.Walked isMatch root p :=
  Search.Reach.tail hb (by simp [walkParents, hget, hmatch, hp])

/-- A finished walk has applied its closures once to each block it meets, in some order. -/
theorem visitParentsDepthFirst_spec {fuel : Nat} {root : BlockId} {s s' : σ}
    (h : t.visitParentsDepthFirst fuel root isMatch apply elseApply missingApply s = some s') :
    ∃ order : List BlockId, order.Nodup ∧ (∀ y, y ∈ order ↔ t.Walked isMatch root y) ∧
      s' = Search.applyAll (t.visitParent isMatch apply elseApply missingApply) order s := by
  obtain ⟨⟨v', s''⟩, hrun, rfl⟩ := Option.map_eq_some_iff.mp h
  obtain ⟨-, order, hnd, hmem, hs⟩ := Search.run_spec (fun b s => visitParent_snd b s) hrun
  exact ⟨order, hnd, hmem, hs⟩

/-- The parents pushed from the stored blocks are at most their parent references. -/
theorem sum_walkParents_le :
    ∑ y ∈ t.blockIdToBlock.keys.toFinset, (t.walkParents isMatch y).length ≤ t.parentCount := by
  let f : BlockId → Nat := fun y => ((t.get y).map fun block => block.parents.toList.length).getD 0
  have hcount : t.parentCount = ∑ y ∈ t.blockIdToBlock.keys.toFinset, f y :=
    sumEntries_eq_sum_keys _ _ f fun k v hk => by simp [f, get, hk]
  rw [hcount]
  refine Finset.sum_le_sum fun y _ => ?_
  unfold walkParents
  split
  · rename_i block md hbm
    have hget : t.get y = some block := (getBlockAndMetadata_eq_some.mp hbm).1
    split <;> simp [f, hget]
  · exact Nat.zero_le _

/-- **Termination.**  Fuel above the parent references of the stored blocks finishes the
walk. -/
theorem visitParentsDepthFirst_isSome {fuel : Nat} (root : BlockId) (s : σ)
    (hfuel : t.parentCount + 1 < fuel) :
    (t.visitParentsDepthFirst fuel root isMatch apply elseApply missingApply s).isSome := by
  -- only stored blocks push parents
  have hK : ∀ y, t.walkParents isMatch y ≠ [] → y ∈ t.blockIdToBlock.keys.toFinset := by
    intro y hy
    unfold walkParents at hy
    split at hy
    · rename_i block md hbm
      have hget : t.get y = some block := (getBlockAndMetadata_eq_some.mp hbm).1
      exact List.mem_toFinset.mpr (AList.mem_keys.mpr (mem_of_lookup_eq_some hget))
    · exact absurd rfl hy
  have hsum : ∑ y ∈ t.blockIdToBlock.keys.toFinset, (t.walkParents isMatch y).length ≤ t.parentCount :=
    sum_walkParents_le
  have hrun : (Search.run (t.visitParent isMatch apply elseApply missingApply) fuel [root] ∅ s).isSome :=
    Search.run_isSome (fun b s => visitParent_snd b s) _ hK
      (by simp only [List.length_singleton, Finset.sdiff_empty]; omega)
  simpa [visitParentsDepthFirst] using hrun

end Walk

end Tangle

end Bee
