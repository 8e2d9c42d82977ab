import Bee.Ledger.NoDoubleSpend
import Bee.Lib.PostOrder

namespace Bee

/-!
# bee-ledger — the order of the white-flag walk

The loop of `traverse_past_cone` is the explicit-stack loop of `PostOrder`, on
the graph the tangle gives (`TangleView.kind`): a block a milestone referenced
already, and a solid entry point that is not stored, stop the walk; a stored
block not referenced yet is expanded with its parents, in their order; any
other block is missing.  So, with enough fuel, the loop applies exactly the
blocks of the recursive depth-first post-order from the milestone's parents,
and stops at the first error `apply_block` returns on them
(`traversePastCone_eq_run`, with `PostOrder.run_visitAll`).

`apply_block` appends the block to the referenced blocks and files it under
exactly one of the other three lists (`applyBlock_files`), so the referenced
blocks stay a permutation of the filed ones (`WhiteFlagMetadata.Partitioned`)
over a whole run, and white flag's count check never fails on it
(`whiteFlag_partitioned`).

The walk looks a block up in the tangle before it asks whether it is a solid
entry point: a stored solid entry point that no milestone referenced is
expanded like any other block, and its past cone is applied with it.
-/

open PostOrder

/-! ### The tangle as a graph -/

/-- What the walk finds at a block: a referenced block stops it, a stored one is expanded
with its parents; a block not stored stops it as a solid entry point, and is missing
otherwise. -/
def TangleView.kind (tangle : TangleView) (blockId : BlockId) : Kind BlockId Block :=
  match tangle.blockAndMetadata blockId with
  | some (block, referenced) => if referenced then .stop else .expand block.parents.toList block
  | none => if tangle.isSolidEntryPoint blockId then .stop else .missing

/-- `x` is stored, and no milestone referenced it yet. -/
def TangleView.Unreferenced (tangle : TangleView) (x : BlockId) : Prop :=
  ∃ block, tangle.blockAndMetadata x = some (block, false)

/-- `y` is a parent of the stored block `x` that no milestone referenced yet: an edge the
walk follows. -/
def TangleView.ParentOf (tangle : TangleView) (x y : BlockId) : Prop :=
  ∃ block, tangle.blockAndMetadata x = some (block, false) ∧ y ∈ block.parents.toList

/-- `x` is reached from one of `blockIds` through parents of blocks not referenced yet. -/
def TangleView.Reaches (tangle : TangleView) (blockIds : List BlockId) (x : BlockId) : Prop :=
  ∃ b ∈ blockIds, Relation.ReflTransGen tangle.ParentOf b x

section Graph

variable {tangle : TangleView}

theorem TangleView.kind_eq_expand {x : BlockId} {parents : List BlockId} {block : Block} :
    tangle.kind x = .expand parents block ↔
      tangle.blockAndMetadata x = some (block, false) ∧ parents = block.parents.toList := by
  unfold TangleView.kind
  split
  · rename_i block' referenced hx
    cases referenced
    · simp only [Bool.false_eq_true, if_false, Kind.expand.injEq, hx, Option.some.injEq,
        Prod.mk.injEq, and_true]
      constructor
      · rintro ⟨rfl, rfl⟩
        exact ⟨rfl, rfl⟩
      · rintro ⟨rfl, rfl⟩
        exact ⟨rfl, rfl⟩
    · simp [hx]
  · rename_i hx
    split <;> simp [hx]

theorem TangleView.edge_eq : Edge tangle.kind = tangle.ParentOf := by
  funext x y
  apply propext
  constructor
  · rintro ⟨parents, block, hkind, hy⟩
    obtain ⟨hx, rfl⟩ := TangleView.kind_eq_expand.mp hkind
    exact ⟨block, hx, hy⟩
  · rintro ⟨block, hx, hy⟩
    exact ⟨block.parents.toList, block, TangleView.kind_eq_expand.mpr ⟨hx, rfl⟩, hy⟩

theorem TangleView.expanded_iff {x : BlockId} : Expanded tangle.kind x ↔ tangle.Unreferenced x := by
  constructor
  · rintro ⟨parents, block, hkind⟩
    exact ⟨block, (TangleView.kind_eq_expand.mp hkind).1⟩
  · rintro ⟨block, hx⟩
    exact ⟨block.parents.toList, block, TangleView.kind_eq_expand.mpr ⟨hx, rfl⟩⟩

/-- A block is missing exactly when it is neither stored nor a solid entry point. -/
theorem TangleView.kind_ne_missing {x : BlockId} :
    tangle.kind x ≠ .missing ↔ (tangle.blockAndMetadata x).isSome ∨ tangle.isSolidEntryPoint x = true := by
  unfold TangleView.kind
  split
  · rename_i block referenced hx
    simp only [hx, Option.isSome_some, true_or, iff_true]
    split <;> simp
  · rename_i hx
    simp only [hx, Option.isSome_none, Bool.false_eq_true, false_or]
    split <;> simp_all

end Graph

/-! ### The loop of `traverse_past_cone` is the library's -/

/-- The loop's state as the library's: the stack, the visited blocks and the metadata. -/
def Traversal.toState (t : Traversal) : State BlockId WhiteFlagMetadata :=
  ⟨t.blockIds, t.visited, t.metadata⟩

section Loop

variable (c : Crypto) (tangle : TangleView) (s : Storage)

/-- One iteration of `traverse_past_cone` is one of the library's loop, case by case of the
source: a referenced block, a block with an unvisited parent, a block applied, a block
visited already, a missing block and a solid entry point. -/
theorem Traversal.step_toState (t : Traversal) :
    (t.step c tangle s).map (Except.map Traversal.toState) =
      PostOrder.step tangle.kind (applyBlock c s) LedgerError.missingBlock t.toState := by
  obtain ⟨blockIds, visited, m⟩ := t
  -- `dsimp` unfolds `toState` to a constructor, so that both sides read the same visited set
  dsimp only [Traversal.step, PostOrder.step, Traversal.toState]
  cases blockIds.getLast? with
  | none => rfl
  | some blockId =>
    simp only [Option.map_some, TangleView.kind]
    cases tangle.blockAndMetadata blockId with
    | none => cases tangle.isSolidEntryPoint blockId <;> rfl
    | some p =>
      obtain ⟨block, referenced⟩ := p
      cases referenced with
      | true => rfl
      | false =>
        simp only [Bool.false_eq_true, if_false]
        cases block.parents.toList.find? (· ∉ visited) with
        | some p => rfl
        | none =>
          by_cases h : blockId ∈ visited
          · simp only [h, not_true_eq_false, if_false]
            rfl
          · simp only [h, not_false_eq_true, if_true]
            cases applyBlock c s blockId block m <;> rfl

/-- `traverse_past_cone` is the library's `run`, fuel for fuel. -/
theorem traversePastCone_eq_run (fuel : Nat) (t : Traversal) :
    traversePastCone c tangle s fuel t =
      run tangle.kind (applyBlock c s) LedgerError.missingBlock fuel t.toState := by
  induction fuel generalizing t with
  | zero => rfl
  | succ fuel ih =>
    rw [traversePastCone, PostOrder.run, ← Traversal.step_toState]
    cases t.step c tangle s with
    | none => rfl
    | some r =>
      cases r with
      | error e => rfl
      | ok t' => exact ih t'

end Loop

/-! ### What `apply_block` files -/

/-- The blocks `apply_block` filed: excluded without a transaction, excluded with a
conflict, and included. -/
def WhiteFlagMetadata.filedBlocks (m : WhiteFlagMetadata) : List BlockId :=
  m.excludedNoTransactionBlocks ++ m.excludedConflictingBlocks.map Prod.fst ++ m.includedBlocks

/-- Every referenced block is filed under one of the three lists, once: what white flag's
count check tests, up to order. -/
def WhiteFlagMetadata.Partitioned (m : WhiteFlagMetadata) : Prop :=
  m.referencedBlocks.Perm m.filedBlocks

theorem WhiteFlagMetadata.partitioned_new (milestoneIndex milestoneTimestamp : UInt32)
    (previousMilestoneId : Option MilestoneId) :
    (WhiteFlagMetadata.new milestoneIndex milestoneTimestamp previousMilestoneId).Partitioned :=
  List.Perm.nil

section Apply

variable (c : Crypto) (s : Storage)

/-- Lists that differ by one block appended to one of their parts are permutations of each
other with that block appended. -/
private theorem perm_of_count {l l' : List BlockId} {blockId : BlockId}
    (h : ∀ x, l'.count x = l.count x + [blockId].count x) : l'.Perm (l ++ [blockId]) :=
  List.perm_iff_count.mpr fun x => by rw [h x, List.count_append]

/-- `apply_block` appends the block to the referenced blocks, and files it under one of the
other three lists. -/
theorem applyBlock_files {blockId : BlockId} {block : Block} {m m' : WhiteFlagMetadata}
    (h : applyBlock c s blockId block m = .ok m') :
    m'.referencedBlocks = m.referencedBlocks ++ [blockId] ∧
      m'.filedBlocks.Perm (m.filedBlocks ++ [blockId]) := by
  unfold applyBlock at h
  split at h
  · rename_i t _
    cases happly : applyTransaction c s blockId t { m with referencedBlocks := m.referencedBlocks ++ [blockId] } with
    | error e => simp [happly, bind, Except.bind] at h
    | ok result =>
      obtain ⟨reason, m₁⟩ := result
      simp only [happly, bind, Except.bind] at h
      -- `include` changes only the outputs: the lists are those of the referenced step
      rcases applyRegularEssence_eq_ok c happly with ⟨rfl, consumed, -, -, rfl⟩ | ⟨hne, rfl⟩
      · simp only [if_pos, pure, Except.pure, Except.ok.injEq] at h
        subst h
        refine ⟨rfl, perm_of_count fun x => ?_⟩
        simp only [WhiteFlagMetadata.filedBlocks, WhiteFlagMetadata.include, List.count_append]
        omega
      · simp only [hne, if_false, pure, Except.pure, Except.ok.injEq] at h
        subst h
        refine ⟨rfl, perm_of_count fun x => ?_⟩
        simp only [WhiteFlagMetadata.filedBlocks, List.map_append, List.map_cons, List.map_nil,
          List.count_append]
        omega
  · -- a milestone: only whether the previous milestone was found changes besides
    simp only [pure, Except.pure, Except.ok.injEq] at h
    subst h
    -- whether the previous milestone was found, or not, the lists are the same
    split <;> (try split) <;>
      exact ⟨rfl, perm_of_count fun x => by
        simp only [WhiteFlagMetadata.filedBlocks, List.count_append]
        omega⟩
  · simp only [pure, Except.pure, Except.ok.injEq] at h
    subst h
    refine ⟨rfl, perm_of_count fun x => ?_⟩
    simp only [WhiteFlagMetadata.filedBlocks, List.count_append]
    omega

theorem WhiteFlagMetadata.Partitioned.applyBlock {blockId : BlockId} {block : Block}
    {m m' : WhiteFlagMetadata} (hm : m.Partitioned) (h : applyBlock c s blockId block m = .ok m') :
    m'.Partitioned := by
  obtain ⟨hreferenced, hfiled⟩ := applyBlock_files c s h
  rw [WhiteFlagMetadata.Partitioned, hreferenced]
  exact (hm.append_right [blockId]).trans hfiled.symm

end Apply

section WhiteFlag

variable (c : Crypto) (tangle : TangleView) (s : Storage)

/-- Over expanded blocks, the library's `applyAll` appends them to the referenced blocks, in
order. -/
theorem applyAll_referencedBlocks {order : List BlockId} {m m' : WhiteFlagMetadata}
    (horder : ∀ x ∈ order, tangle.Unreferenced x)
    (h : applyAll tangle.kind (applyBlock c s) order m = .ok m') :
    m'.referencedBlocks = m.referencedBlocks ++ order :=
  applyAll_extends WhiteFlagMetadata.referencedBlocks
    (fun _ _ _ _ _ _ happly => (applyBlock_files c s happly).1)
    (fun x hx => TangleView.expanded_iff.mpr (horder x hx)) h

/-- White flag ends with its referenced blocks partitioned, from metadata that has them so. -/
theorem whiteFlag_partitioned {fuel : Nat} {blockIds : List BlockId} {m m' : WhiteFlagMetadata}
    (hm : m.Partitioned) (h : whiteFlag c tangle s fuel blockIds m = some (.ok m')) :
    m'.Partitioned := by
  obtain ⟨mt, htraverse, rfl, -, -⟩ := whiteFlag_eq_ok c tangle s h
  have hstep : ∀ t t' : Traversal, t.metadata.Partitioned → t.step c tangle s = some (.ok t') →
      t'.metadata.Partitioned := by
    intro t t' ht hnext
    rcases Traversal.step_eq_ok c tangle s hnext with hsame | ⟨blockId, block, -, happly⟩
    · rw [hsame]
      exact ht
    · exact ht.applyBlock c s happly
  have hmt : mt.Partitioned := traversePastCone_invariant c tangle s _ hstep htraverse hm
  -- the Merkle roots leave the lists as they are
  exact hmt

end WhiteFlag

/-! ### The walk of `traverse_past_cone` -/

/-- On a tangle whose parents rank below their children, and where every block the walk reaches
is stored or a solid entry point, `traverse_past_cone` from the parents `blockIds` applies the
depth-first post-order of their past cone: the recursive walk from each parent in turn, each
block after its parents in their stored order.  That order holds each stored block not
referenced yet that the parents reach, once, after those of its parents it holds; with enough
fuel the loop returns the blocks applied in that order, or the first error `apply_block`
gives; what it returns appends them to the referenced blocks; and white flag keeps these
partitioned. -/
theorem white_flag_traversal_post_order (c : Crypto) (tangle : TangleView) (s : Storage)
    (blockIds : List BlockId) (m : WhiteFlagMetadata) (rank : BlockId → Nat)
    (hrank : ∀ x y, tangle.ParentOf x y → rank y < rank x)
    (hstored : ∀ x, tangle.Reaches blockIds x →
      (tangle.blockAndMetadata x).isSome ∨ tangle.isSolidEntryPoint x = true)
    (hm : m.Partitioned) :
    ∃ fuel₀ visited order,
      visitAll (visit tangle.kind fuel₀) blockIds ∅ = some (.ok (visited, order)) ∧
      order.Nodup ∧ (∀ x, x ∈ order ↔ tangle.Unreferenced x ∧ tangle.Reaches blockIds x) ∧
      order.Pairwise (fun x y => ¬ tangle.ParentOf x y) ∧
      (∃ n, ∀ fuel, n ≤ fuel →
        traversePastCone c tangle s fuel ⟨blockIds.reverse, ∅, m⟩ =
          some (applyAll tangle.kind (applyBlock c s) order m)) ∧
      (∀ m', applyAll tangle.kind (applyBlock c s) order m = .ok m' →
        m'.referencedBlocks = m.referencedBlocks ++ order) ∧
      ∀ fuel m', whiteFlag c tangle s fuel blockIds m = some (.ok m') → m'.Partitioned := by
  have hedge : Edge tangle.kind = tangle.ParentOf := TangleView.edge_eq
  -- no block the walk reaches is missing, so the walk succeeds
  have hmissing : ∀ x, (∃ b ∈ blockIds, Relation.ReflTransGen (Edge tangle.kind) b x) →
      tangle.kind x ≠ .missing := by
    intro x hx
    rw [hedge] at hx
    exact TangleView.kind_ne_missing.mpr (hstored x hx)
  obtain ⟨fuel₀, visited, order, hvisit⟩ :=
    exists_visitAll_eq_ok rank (by rw [hedge]; exact hrank) hmissing ∅
  obtain ⟨hnodup, hmem, hpairwise⟩ := (visitAll_walked (fun _ _ _ _ h => visit_walked h) hvisit).spec
  rw [hedge] at hmem hpairwise
  have horder : ∀ x, x ∈ order ↔ tangle.Unreferenced x ∧ tangle.Reaches blockIds x := by
    intro x
    rw [hmem x, TangleView.expanded_iff]
    rfl
  -- the loop refines the walk
  obtain ⟨n, hrun⟩ : ∃ n, ∀ fuel, n ≤ fuel →
      run tangle.kind (applyBlock c s) LedgerError.missingBlock fuel ⟨blockIds.reverse, ∅, m⟩ =
        some (applyAll tangle.kind (applyBlock c s) order m) :=
    run_visitAll hvisit m
  refine ⟨fuel₀, visited, order, hvisit, hnodup, horder, hpairwise, ⟨n, fun fuel hfuel => ?_⟩,
    fun m' h => ?_, fun fuel m' h => whiteFlag_partitioned c tangle s hm h⟩
  · rw [traversePastCone_eq_run]
    exact hrun fuel hfuel
  · exact applyAll_referencedBlocks c tangle s (fun x hx => ((horder x).mp hx).1) h

/-! ### A stored solid entry point -/

/-- The parents of one block. -/
def Parents.single (blockId : BlockId) : Parents :=
  ⟨[blockId], ⟨Nat.le_refl 1, by simp⟩, List.pairwise_singleton _ blockId⟩

/-- Three stored blocks in a chain: `3…3`, a solid entry point that no milestone referenced,
with parent `2…2`, not referenced either, whose parent `1…1` a milestone referenced. -/
def entryPointTangle : TangleView where
  blockAndMetadata blockId :=
    if blockId = .replicate 32 3 then some (⟨2, .single (.replicate 32 2), none, 0⟩, false)
    else if blockId = .replicate 32 2 then some (⟨2, .single (.replicate 32 1), none, 0⟩, false)
    else if blockId = .replicate 32 1 then some (⟨2, .single (.replicate 32 0), none, 0⟩, true)
    else none
  isSolidEntryPoint blockId := blockId = .replicate 32 3

/-- The edges of `entryPointTangle`: `3…3` to `2…2`, and `2…2` to `1…1`. -/
theorem entryPointTangle_parentOf {x y : BlockId} (h : entryPointTangle.ParentOf x y) :
    (x = .replicate 32 3 ∧ y = .replicate 32 2) ∨ (x = .replicate 32 2 ∧ y = .replicate 32 1) := by
  obtain ⟨block, hx, hy⟩ := h
  simp only [entryPointTangle] at hx
  split_ifs at hx with h₃ h₂ h₁
  · obtain rfl := (Prod.mk.inj (Option.some.inj hx)).1
    exact .inl ⟨h₃, by simpa [Parents.single] using hy⟩
  · obtain rfl := (Prod.mk.inj (Option.some.inj hx)).1
    exact .inr ⟨h₂, by simpa [Parents.single] using hy⟩
  · cases (Prod.mk.inj (Option.some.inj hx)).2

/-- A rank of `entryPointTangle`'s blocks, parents below children. -/
def entryPointRank (blockId : BlockId) : Nat :=
  if blockId = .replicate 32 3 then 2 else if blockId = .replicate 32 2 then 1 else 0

theorem entryPointTangle_rank (x y : BlockId) (h : entryPointTangle.ParentOf x y) :
    entryPointRank y < entryPointRank x := by
  rcases entryPointTangle_parentOf h with ⟨rfl, rfl⟩ | ⟨rfl, rfl⟩ <;> decide

/-- Every block reached from `3…3` is stored: the start, and each parent the walk follows. -/
theorem entryPointTangle_stored {x : BlockId} (hx : entryPointTangle.Reaches [.replicate 32 3] x) :
    (entryPointTangle.blockAndMetadata x).isSome ∨ entryPointTangle.isSolidEntryPoint x = true := by
  obtain ⟨b, hb, hbx⟩ := hx
  rw [List.mem_singleton] at hb
  subst hb
  rcases Relation.ReflTransGen.cases_tail hbx with rfl | ⟨z, -, hzx⟩
  · exact .inl (by decide)
  · rcases entryPointTangle_parentOf hzx with ⟨-, rfl⟩ | ⟨-, rfl⟩ <;> exact .inl (by decide)

/-- The walk of `traverse_past_cone` on `entryPointTangle` from `3…3`. -/
theorem white_flag_traversal_entry_point :
    (∀ x y, entryPointTangle.ParentOf x y → entryPointRank y < entryPointRank x) ∧
      (∀ x, entryPointTangle.Reaches [.replicate 32 3] x →
        (entryPointTangle.blockAndMetadata x).isSome ∨ entryPointTangle.isSolidEntryPoint x = true) ∧
      (WhiteFlagMetadata.new 1 0 none).Partitioned ∧
      ∃ fuel₀ visited order,
        visitAll (visit entryPointTangle.kind fuel₀) [.replicate 32 3] ∅ = some (.ok (visited, order)) ∧
        order.Nodup ∧
        (∀ x, x ∈ order ↔ entryPointTangle.Unreferenced x ∧ entryPointTangle.Reaches [.replicate 32 3] x) ∧
        order.Pairwise (fun x y => ¬ entryPointTangle.ParentOf x y) ∧
        (∃ n, ∀ fuel, n ≤ fuel →
          traversePastCone .truncating entryPointTangle spendStorage fuel
              ⟨[.replicate 32 3].reverse, ∅, .new 1 0 none⟩ =
            some (applyAll entryPointTangle.kind (applyBlock .truncating spendStorage) order
              (.new 1 0 none))) ∧
        (∀ m', applyAll entryPointTangle.kind (applyBlock .truncating spendStorage) order
            (.new 1 0 none) = .ok m' →
          m'.referencedBlocks = (WhiteFlagMetadata.new 1 0 none).referencedBlocks ++ order) ∧
        ∀ fuel m', whiteFlag .truncating entryPointTangle spendStorage fuel [.replicate 32 3]
            (.new 1 0 none) = some (.ok m') → m'.Partitioned :=
  ⟨entryPointTangle_rank, fun _ hx => entryPointTangle_stored hx, WhiteFlagMetadata.partitioned_new 1 0 none,
    white_flag_traversal_post_order .truncating entryPointTangle spendStorage [.replicate 32 3]
      (.new 1 0 none) entryPointRank entryPointTangle_rank (fun _ hx => entryPointTangle_stored hx)
      (WhiteFlagMetadata.partitioned_new 1 0 none)⟩

/-- The walk from the solid entry point `3…3`, stored and not referenced, goes on to its parent
`2…2`, which only `3…3` reaches, and applies it. -/
theorem white_flag_expands_solid_entry_point :
    entryPointTangle.isSolidEntryPoint (.replicate 32 3) = true ∧
      (∀ x, entryPointTangle.ParentOf x (.replicate 32 2) → x = .replicate 32 3) ∧
      (∀ x, entryPointTangle.Reaches [.replicate 32 3] x →
        (entryPointTangle.blockAndMetadata x).isSome ∨ entryPointTangle.isSolidEntryPoint x = true) ∧
      ∃ m, traversePastCone .truncating entryPointTangle spendStorage 8
          ⟨[.replicate 32 3], ∅, .new 1 0 none⟩ = some (.ok m) ∧
        m.referencedBlocks = [.replicate 32 2, .replicate 32 3] := by
  have hparent : ∀ x, entryPointTangle.ParentOf x (.replicate 32 2) → x = .replicate 32 3 := by
    intro x hx
    rcases entryPointTangle_parentOf hx with ⟨hx, -⟩ | ⟨-, h⟩
    · exact hx
    · exact absurd h (by decide)
  -- the metadata has no decidable equality: evaluate a test of it instead
  have hrun : (traversePastCone .truncating entryPointTangle spendStorage 8
      ⟨[.replicate 32 3], ∅, .new 1 0 none⟩).map
      (fun r => r.toOption.map fun m => decide (m.referencedBlocks = [.replicate 32 2, .replicate 32 3])) =
        some (some true) := by
    decide +kernel
  obtain ⟨m, h, hm⟩ := Flow.eq_some_ok_of_test hrun
  exact ⟨rfl, hparent, fun _ hx => entryPointTangle_stored hx, m, h, of_decide_eq_true hm⟩

end Bee
