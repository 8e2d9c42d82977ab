import Bee.Tangle.Traversal
import Bee.Lib.Flow
import Bee.Ledger.PastCone

namespace Bee

open AssocMap

/-!
# bee-tangle — the URTS tip pool

The tip pool (`urts.rs`) holds the solid blocks a node offers as parents of new blocks.  Three
workers act on it, each at its own time: the propagator inserts each block it makes solid while
the node is close to synced (`insert_tip`, gated in `propagator.rs`); the index updater rescores
the tips after a milestone (`update_tip_scores`); and a cleaner drops every second the tips
whose first child came too long ago (`reduce_tips`).  A block enters only with a non-lazy
score, and it makes its parents tips with a child, which the retention rules drop when the pool
holds too many non-lazy tips, when a parent has too many children, or when its first child is
too old.

Time is an explicit clock: an `Instant` is a number of nanoseconds, and `elapsed().as_secs()`
at `now` is `elapsedSecs now`.

* `tipScore` — `tip_score`: lazy for a block not stored, else by its oldest and youngest root
  snapshot indexes against the solid milestone index; `none` where the unwrap of the indexes or
  an index addition panics;
* `insertSolidified_eq_none_iff` — the propagator's insertion panics only on its own arithmetic
  or where scoring the block does: the unwraps of the retention rules never panic;
* `insert_retained` — a block scored non-lazy becomes a tip without children, and each of its
  parents left in the pool keeps within the retention rules;
* `updateScores_spec` — rescoring panics exactly when scoring some tip does, and otherwise
  leaves only tips scored non-lazy, with their entries unchanged;
* `run_inv` — over any interleaving of the workers, every non-lazy tip is a tip of the pool, a
  tip's first-child time is set exactly when it has children, and no tip has more than
  `MAX_NUM_CHILDREN` children.
-/

/-- `Score` of a tip. -/
inductive Score
  | nonLazy
  | semiLazy
  | lazy
  deriving DecidableEq, Repr

/-- `YMRSI_DELTA`: how far the solid milestone index may pass a tip's youngest root snapshot
index before the tip is lazy. -/
def YMRSI_DELTA : UInt32 := 8

/-- `OMRSI_DELTA`: how far it may pass the oldest one before the tip is semi-lazy. -/
def OMRSI_DELTA : UInt32 := 13

/-- `MAX_LIMIT_NON_LAZY`. -/
def MAX_LIMIT_NON_LAZY : UInt8 := 100

/-- `MAX_AGE_SECONDS_AFTER_FIRST_CHILD`. -/
def MAX_AGE_SECONDS_AFTER_FIRST_CHILD : UInt8 := 3

/-- `MAX_NUM_CHILDREN`. -/
def MAX_NUM_CHILDREN : UInt8 := 2

/-- `Instant::elapsed().as_secs()` at `now`, both instants in nanoseconds; `elapsed` saturates
at zero. -/
def elapsedSecs (now since : Nat) : Nat := (now - since) / 1000000000

/-- `TipMetadata`. -/
structure TipMetadata where
  children : Finset BlockId
  timeFirstChild : Option Nat
  deriving DecidableEq

namespace TipMetadata

/-- `TipMetadata::new`. -/
def new : TipMetadata := ⟨∅, none⟩

/-- The `Entry::Occupied` arm of `add_child`: the child is added, and the time of the first
child set if it is not. -/
def addChild (now : Nat) (child : BlockId) (metadata : TipMetadata) : TipMetadata :=
  { children := insert child metadata.children
    timeFirstChild := if metadata.timeFirstChild.isNone then some now else metadata.timeFirstChild }

/-- The closure of `reduce_tips`' `retain`: whether the first child came more than
`MAX_AGE_SECONDS_AFTER_FIRST_CHILD` seconds ago. -/
def expired (now : Nat) (metadata : TipMetadata) : Bool :=
  (metadata.timeFirstChild.filter fun age =>
    elapsedSecs now age > MAX_AGE_SECONDS_AFTER_FIRST_CHILD.toNat).isSome

end TipMetadata

/-- `UrtsTipPool`. -/
structure UrtsTipPool where
  tips : Map BlockId TipMetadata
  nonLazyTips : Finset BlockId
  belowMaxDepth : UInt32
  deriving DecidableEq

namespace UrtsTipPool

/-- `UrtsTipPool::new`, with the tangle's configured `below_max_depth`. -/
def new (belowMaxDepth : UInt32) : UrtsTipPool := ⟨∅, ∅, belowMaxDepth⟩

/-- `tip_score`, over the tangle `t` and its solid milestone index `smi`.  `none` where the
unwrap of a stored block's indexes panics, or where an index addition overflows; the `||`
evaluates its second addition only when the first comparison fails. -/
def tipScore (p : UrtsTipPool) (t : Tangle) (smi : UInt32) (blockId : BlockId) : Option Score :=
  if !t.contains blockId then some .lazy
  else do
    let (omrsi, ymrsi) ← t.omrsiAndYmrsi blockId
    let ymrsiLimit ← ymrsi.index.checkedAdd YMRSI_DELTA
    if smi > ymrsiLimit then pure .lazy
    else
      let depthLimit ← omrsi.index.checkedAdd p.belowMaxDepth
      if smi > depthLimit then pure .lazy
      else
        let omrsiLimit ← omrsi.index.checkedAdd OMRSI_DELTA
        if smi > omrsiLimit then pure .semiLazy else pure .nonLazy

/-- `self.tips.remove(tip); self.non_lazy_tips.remove(tip);`. -/
def removeTip (p : UrtsTipPool) (tip : BlockId) : UrtsTipPool :=
  { p with tips := p.tips.erase tip, nonLazyTips := p.nonLazyTips.erase tip }

/-- Remove the tips `tips` in turn. -/
def removeAll (p : UrtsTipPool) (tips : List BlockId) : UrtsTipPool := tips.foldl removeTip p

/-- `add_child`. -/
def addChild (now : Nat) (p : UrtsTipPool) (parent child : BlockId) : UrtsTipPool :=
  match p.tips.lookup parent with
  | some metadata => { p with tips := p.tips.insert parent (metadata.addChild now child) }
  | none => { p with tips := p.tips.insert parent { children := {child}, timeFirstChild := some now } }

/-- `check_retention_rules_for_parent`: the parent leaves the pool when the pool holds more than
`MAX_LIMIT_NON_LAZY` non-lazy tips, when the parent has more than `MAX_NUM_CHILDREN` children,
or when its first child came more than `MAX_AGE_SECONDS_AFTER_FIRST_CHILD` seconds ago.  `none`
where an `unwrap` panics. -/
def checkRetentionRulesForParent (now : Nat) (p : UrtsTipPool) (parent : BlockId) :
    Option UrtsTipPool :=
  if p.nonLazyTips.card > MAX_LIMIT_NON_LAZY.toNat then some (p.removeTip parent)
  else do
    let metadata ← p.tips.lookup parent
    if metadata.children.card > MAX_NUM_CHILDREN.toNat then pure (p.removeTip parent)
    else
      let timeFirstChild ← metadata.timeFirstChild
      if elapsedSecs now timeFirstChild > MAX_AGE_SECONDS_AFTER_FIRST_CHILD.toNat then
        pure (p.removeTip parent)
      else pure p

/-- The body of `insert`'s loop over the parents of `child`. -/
def addParent (now : Nat) (child : BlockId) (p : UrtsTipPool) (parent : BlockId) :
    Option UrtsTipPool :=
  (p.addChild now parent child).checkRetentionRulesForParent now parent

/-- `self.non_lazy_tips.insert(block_id); self.tips.insert(block_id, TipMetadata::new());`. -/
def addTip (p : UrtsTipPool) (blockId : BlockId) : UrtsTipPool :=
  { p with nonLazyTips := Insert.insert blockId p.nonLazyTips, tips := p.tips.insert blockId .new }

/-- `insert`: a block scored non-lazy becomes a tip, and each of its parents gets it as a
child and then faces the retention rules. -/
def insert (now : Nat) (t : Tangle) (smi : UInt32) (p : UrtsTipPool) (blockId : BlockId)
    (parents : List BlockId) : Option UrtsTipPool := do
  let score ← p.tipScore t smi blockId
  if score = .nonLazy then parents.foldlM (addParent now blockId) (p.addTip blockId)
  else pure p

/-- `update_scores`: the tips scored semi-lazy or lazy are collected, then removed. -/
def updateScores (t : Tangle) (smi : UInt32) (p : UrtsTipPool) : Option UrtsTipPool := do
  let toRemove ← p.tips.keys.filterMapM fun tip => do
    let score ← p.tipScore t smi tip
    pure (if score = .nonLazy then none else some tip)
  pure (p.removeAll toRemove)

/-- `reduce_tips`: `retain` drops the expired tips, and its closure drops each of them from the
non-lazy tips. -/
def reduceTips (now : Nat) (p : UrtsTipPool) : UrtsTipPool :=
  p.removeAll ((p.tips.entries.filter fun e => e.2.expired now).map (·.1))

/-- `optimal_num_tips`. -/
def optimalNumTips : Nat := 4

/-- `choose_non_lazy_tips`, with the iteration order of the set (`iter`) and rand's
`choose_multiple` with the thread's generator (`chooseMultiple`) given. -/
def chooseNonLazyTips (iter : Finset BlockId → List BlockId)
    (chooseMultiple : List BlockId → Nat → List BlockId) (p : UrtsTipPool) :
    Option (List BlockId) :=
  if p.nonLazyTips = ∅ then none
  else
    some (if p.nonLazyTips.card < optimalNumTips then iter p.nonLazyTips
      else chooseMultiple (iter p.nonLazyTips) optimalNumTips)

/-- `SAFETY_THRESHOLD` of the propagator's gate. -/
def SAFETY_THRESHOLD : UInt32 := 5

/-- The propagator's handling of a solidified block (`propagator.rs`): it goes to the tip pool
only while the latest milestone index `lmi` is within `below_max_depth + SAFETY_THRESHOLD` of
the solid one.  `none` where the subtraction or the addition panics. -/
def insertSolidified (now : Nat) (t : Tangle) (smi lmi : UInt32) (p : UrtsTipPool)
    (blockId : BlockId) (parents : List BlockId) : Option UrtsTipPool := do
  let lag ← lmi.checkedSub smi
  let limit ← p.belowMaxDepth.checkedAdd SAFETY_THRESHOLD
  if lag ≤ limit then p.insert now t smi blockId parents else pure p

end UrtsTipPool

/-- What the workers do to the tip pool, each with the tangle as it is then. -/
inductive TipPoolEvent
  | solidified (now : Nat) (t : Tangle) (smi lmi : UInt32) (blockId : BlockId)
      (parents : List BlockId)
  | updateTipScores (t : Tangle) (smi : UInt32)
  | reduceTips (now : Nat)

namespace UrtsTipPool

/-- One worker's action on the pool. -/
def step (p : UrtsTipPool) : TipPoolEvent → Option UrtsTipPool
  | .solidified now t smi lmi blockId parents => p.insertSolidified now t smi lmi blockId parents
  | .updateTipScores t smi => p.updateScores t smi
  | .reduceTips now => some (p.reduceTips now)

/-- The workers' actions in turn; `none` where one panics. -/
def run (p : UrtsTipPool) (events : List TipPoolEvent) : Option UrtsTipPool :=
  events.foldlM step p

/-! ### What each operation does to the tables -/

/-- The parent's metadata once `add_child` has added `child` to it. -/
def childAdded (now : Nat) (p : UrtsTipPool) (parent child : BlockId) : TipMetadata :=
  ((p.tips.lookup parent).getD .new).addChild now child

@[simp] theorem TipMetadata.children_addChild (now : Nat) (child : BlockId) (md : TipMetadata) :
    (md.addChild now child).children = Insert.insert child md.children := rfl

theorem TipMetadata.timeFirstChild_addChild (now : Nat) (child : BlockId) (md : TipMetadata) :
    (md.addChild now child).timeFirstChild = some (md.timeFirstChild.getD now) := by
  cases h : md.timeFirstChild <;> simp [TipMetadata.addChild, h]

section Tables

variable {now : Nat} {p : UrtsTipPool} {parent child tip b : BlockId}

@[simp] theorem tips_removeTip : (p.removeTip tip).tips = p.tips.erase tip := rfl

@[simp] theorem nonLazyTips_removeTip : (p.removeTip tip).nonLazyTips = p.nonLazyTips.erase tip :=
  rfl

@[simp] theorem belowMaxDepth_removeTip : (p.removeTip tip).belowMaxDepth = p.belowMaxDepth := rfl

@[simp] theorem tips_addTip : (p.addTip tip).tips = p.tips.insert tip .new := rfl

@[simp] theorem nonLazyTips_addTip : (p.addTip tip).nonLazyTips = Insert.insert tip p.nonLazyTips :=
  rfl

theorem tips_addChild :
    (p.addChild now parent child).tips = p.tips.insert parent (p.childAdded now parent child) := by
  unfold addChild childAdded
  split
  · rename_i md hmd
    rw [hmd, Option.getD_some]
  · rename_i hmd
    rw [hmd, Option.getD_none]
    simp [TipMetadata.new, TipMetadata.addChild]

@[simp] theorem nonLazyTips_addChild : (p.addChild now parent child).nonLazyTips = p.nonLazyTips := by
  unfold addChild
  split <;> rfl

theorem lookup_addChild_self :
    (p.addChild now parent child).tips.lookup parent = some (p.childAdded now parent child) := by
  rw [tips_addChild, AList.lookup_insert]

theorem lookup_addChild_ne (h : b ≠ parent) :
    (p.addChild now parent child).tips.lookup b = p.tips.lookup b := by
  rw [tips_addChild, AList.lookup_insert_ne h]

theorem lookup_removeAll (tips : List BlockId) :
    (p.removeAll tips).tips.lookup b = if b ∈ tips then none else p.tips.lookup b := by
  induction tips generalizing p with
  | nil => simp [removeAll]
  | cons x xs ih =>
    simp only [removeAll, List.foldl_cons] at ih ⊢
    rw [ih, tips_removeTip]
    by_cases hbx : b = x
    · subst hbx
      simp [AList.lookup_erase]
    · simp [AList.lookup_erase_ne hbx, hbx]

theorem mem_nonLazyTips_removeAll (tips : List BlockId) :
    b ∈ (p.removeAll tips).nonLazyTips ↔ b ∈ p.nonLazyTips ∧ b ∉ tips := by
  induction tips generalizing p with
  | nil => simp [removeAll]
  | cons x xs ih =>
    simp only [removeAll, List.foldl_cons] at ih ⊢
    rw [ih, nonLazyTips_removeTip, Finset.mem_erase, List.mem_cons]
    tauto

end Tables

/-! ### The retention rules -/

/-- The retention rules hold of a tip with metadata `metadata` in the pool `p` at `now`: the
pool holds at most `MAX_LIMIT_NON_LAZY` non-lazy tips, the tip at most `MAX_NUM_CHILDREN`
children, and its first child came at most `MAX_AGE_SECONDS_AFTER_FIRST_CHILD` seconds ago. -/
def Retained (now : Nat) (p : UrtsTipPool) (metadata : TipMetadata) : Prop :=
  p.nonLazyTips.card ≤ MAX_LIMIT_NON_LAZY.toNat ∧ metadata.children.card ≤ MAX_NUM_CHILDREN.toNat ∧
    ∃ t₀, metadata.timeFirstChild = some t₀ ∧
      elapsedSecs now t₀ ≤ MAX_AGE_SECONDS_AFTER_FIRST_CHILD.toNat

theorem Retained.of_subset {now : Nat} {p p' : UrtsTipPool} {md : TipMetadata}
    (h : Retained now p md) (hsub : p'.nonLazyTips ⊆ p.nonLazyTips) : Retained now p' md :=
  ⟨(Finset.card_le_card hsub).trans h.1, h.2⟩

section Retention

variable {now : Nat} {p p' : UrtsTipPool} {parent child : BlockId}

/-- The rules read a parent with metadata and a time of first child without a panic, and
remove it exactly when one of them is broken. -/
theorem checkRetentionRulesForParent_eq {md : TipMetadata} {t₀ : Nat}
    (hmd : p.tips.lookup parent = some md) (ht : md.timeFirstChild = some t₀) :
    p.checkRetentionRulesForParent now parent =
      some (if p.nonLazyTips.card ≤ MAX_LIMIT_NON_LAZY.toNat ∧
          md.children.card ≤ MAX_NUM_CHILDREN.toNat ∧
          elapsedSecs now t₀ ≤ MAX_AGE_SECONDS_AFTER_FIRST_CHILD.toNat
        then p else p.removeTip parent) := by
  unfold checkRetentionRulesForParent
  simp only [hmd, ht, Option.bind_eq_bind, Option.bind_some, Option.pure_def]
  split_ifs <;> first | rfl | omega

/-- One parent of `insert`'s loop, in full: `add_child` gives it `child`, and the rules then
keep it exactly when they hold of its new metadata. -/
theorem addParent_cases (now : Nat) (child : BlockId) (p : UrtsTipPool) (parent : BlockId) :
    (Retained now p (p.childAdded now parent child) ∧
        p.addParent now child parent = some (p.addChild now parent child)) ∨
      (¬ Retained now p (p.childAdded now parent child) ∧
        p.addParent now child parent = some ((p.addChild now parent child).removeTip parent)) := by
  set md := p.childAdded now parent child with hmd_def
  have ht : md.timeFirstChild = some (((p.tips.lookup parent).getD .new).timeFirstChild.getD now) :=
    TipMetadata.timeFirstChild_addChild _ _ _
  have hcheck : (p.addChild now parent child).checkRetentionRulesForParent now parent = _ :=
    checkRetentionRulesForParent_eq lookup_addChild_self ht
  rw [nonLazyTips_addChild] at hcheck
  -- `Retained` is the rules' condition once the time of the first child is known
  have hiff : Retained now p md ↔ p.nonLazyTips.card ≤ MAX_LIMIT_NON_LAZY.toNat ∧
      md.children.card ≤ MAX_NUM_CHILDREN.toNat ∧
      elapsedSecs now (((p.tips.lookup parent).getD .new).timeFirstChild.getD now) ≤
        MAX_AGE_SECONDS_AFTER_FIRST_CHILD.toNat := by
    simp [Retained, ht]
  by_cases hr : Retained now p md
  · exact .inl ⟨hr, by rw [addParent, hcheck, if_pos (hiff.mp hr)]⟩
  · exact .inr ⟨hr, by rw [addParent, hcheck, if_neg (mt hiff.mpr hr)]⟩

theorem addParent_isSome (now : Nat) (child : BlockId) (p : UrtsTipPool) (parent : BlockId) :
    (p.addParent now child parent).isSome := by
  rcases addParent_cases now child p parent with ⟨-, h⟩ | ⟨-, h⟩ <;> simp [h]

theorem lookup_addParent_ne {b : BlockId} (hb : b ≠ parent)
    (h : p.addParent now child parent = some p') : p'.tips.lookup b = p.tips.lookup b := by
  rcases addParent_cases now child p parent with ⟨-, h'⟩ | ⟨-, h'⟩ <;>
    rw [h', Option.some.injEq] at h <;> subst h
  · exact lookup_addChild_ne hb
  · rw [tips_removeTip, AList.lookup_erase_ne hb, lookup_addChild_ne hb]

theorem nonLazyTips_addParent_subset (h : p.addParent now child parent = some p') :
    p'.nonLazyTips ⊆ p.nonLazyTips := by
  rcases addParent_cases now child p parent with ⟨-, h'⟩ | ⟨-, h'⟩ <;>
    rw [h', Option.some.injEq] at h <;> subst h
  · rw [nonLazyTips_addChild]
  · rw [nonLazyTips_removeTip, nonLazyTips_addChild]
    exact Finset.erase_subset _ _

theorem mem_nonLazyTips_addParent_ne {b : BlockId} (hb : b ≠ parent)
    (h : p.addParent now child parent = some p') : b ∈ p'.nonLazyTips ↔ b ∈ p.nonLazyTips := by
  rcases addParent_cases now child p parent with ⟨-, h'⟩ | ⟨-, h'⟩ <;>
    rw [h', Option.some.injEq] at h <;> subst h
  · rw [nonLazyTips_addChild]
  · rw [nonLazyTips_removeTip, nonLazyTips_addChild, Finset.mem_erase, and_iff_right hb]

/-- A parent the rules keep satisfies them. -/
theorem addParent_retained (h : p.addParent now child parent = some p') {md : TipMetadata}
    (hmd : p'.tips.lookup parent = some md) : Retained now p' md := by
  rcases addParent_cases now child p parent with ⟨hr, h'⟩ | ⟨-, h'⟩ <;>
    rw [h', Option.some.injEq] at h <;> subst h
  · rw [lookup_addChild_self, Option.some.injEq] at hmd
    subst hmd
    exact hr.of_subset (by rw [nonLazyTips_addChild])
  · simp [AList.lookup_erase] at hmd

end Retention

/-! ### The loop over the parents -/

section Parents

variable {now : Nat} {child : BlockId} {parents : List BlockId} {p r : UrtsTipPool}

theorem foldlM_addParent_lookup_of_notMem {b : BlockId} (hb : b ∉ parents)
    (h : parents.foldlM (addParent now child) p = some r) : r.tips.lookup b = p.tips.lookup b :=
  Flow.foldlM_invariant (fun q => q.tips.lookup b = p.tips.lookup b)
    (fun _ _ _ hx hq hstep =>
      (lookup_addParent_ne (ne_of_mem_of_not_mem hx hb).symm hstep).trans hq)
    h rfl

theorem foldlM_addParent_nonLazyTips_subset
    (h : parents.foldlM (addParent now child) p = some r) : r.nonLazyTips ⊆ p.nonLazyTips :=
  Flow.foldlM_invariant (fun q => q.nonLazyTips ⊆ p.nonLazyTips)
    (fun _ _ _ _ hq hstep => (nonLazyTips_addParent_subset hstep).trans hq) h subset_rfl

theorem foldlM_addParent_mem_nonLazyTips {b : BlockId} (hb : b ∉ parents)
    (h : parents.foldlM (addParent now child) p = some r) :
    b ∈ r.nonLazyTips ↔ b ∈ p.nonLazyTips :=
  Flow.foldlM_invariant (fun q => b ∈ q.nonLazyTips ↔ b ∈ p.nonLazyTips)
    (fun _ _ _ hx hq hstep =>
      (mem_nonLazyTips_addParent_ne (ne_of_mem_of_not_mem hx hb).symm hstep).trans hq)
    h Iff.rfl

/-- After the loop, every parent left in the pool satisfies the retention rules. -/
theorem foldlM_addParent_retained (h : parents.foldlM (addParent now child) p = some r) :
    ∀ parent ∈ parents, ∀ md, r.tips.lookup parent = some md → Retained now r md := by
  induction parents generalizing p with
  | nil => simp
  | cons x xs ih =>
    rw [List.foldlM_cons, Option.bind_eq_bind, Option.bind_eq_some_iff] at h
    obtain ⟨p₁, hx, hrest⟩ := h
    intro parent hparent md hmd
    by_cases hin : parent ∈ xs
    · exact ih hrest parent hin md hmd
    · -- the loop over the rest leaves this parent's entry, and only removes non-lazy tips
      have hp : parent = x := by simpa [hin] using hparent
      subst hp
      rw [foldlM_addParent_lookup_of_notMem hin hrest] at hmd
      exact (addParent_retained hx hmd).of_subset (foldlM_addParent_nonLazyTips_subset hrest)

end Parents

/-! ### Inserting a block -/

section Insert

variable {now : Nat} {t : Tangle} {smi : UInt32} {p : UrtsTipPool} {blockId : BlockId}
  {parents : List BlockId}

/-- Inserting panics exactly when scoring the block does: the `unwrap`s of the retention rules
read a parent that `add_child` has just given metadata and a time of first child. -/
theorem insert_eq_none_iff :
    p.insert now t smi blockId parents = none ↔ p.tipScore t smi blockId = none := by
  unfold insert
  cases hs : p.tipScore t smi blockId with
  | none => simp
  | some score =>
    simp only [Option.bind_eq_bind, Option.bind_some, reduceCtorEq, iff_false]
    split
    · exact Option.ne_none_iff_isSome.mpr
        (Flow.foldlM_isSome (addParent_isSome now blockId) parents (p.addTip blockId))
    · simp

/-- Inserting either leaves the pool, or makes the block a tip and runs the loop over its
parents. -/
theorem insert_cases {p' : UrtsTipPool} (h : p.insert now t smi blockId parents = some p') :
    p' = p ∨ parents.foldlM (addParent now blockId) (p.addTip blockId) = some p' := by
  unfold UrtsTipPool.insert at h
  cases hs : p.tipScore t smi blockId with
  | none => simp [hs] at h
  | some score =>
    simp only [hs, Option.bind_eq_bind, Option.bind_some] at h
    split at h
    · exact .inr h
    · rw [Option.pure_def, Option.some.injEq] at h
      exact .inl h.symm

/-- A block scored non-lazy, which is not one of its own parents, becomes a non-lazy tip without
children, and each of its parents left in the pool keeps within the retention rules. -/
theorem insert_retained (hscore : p.tipScore t smi blockId = some .nonLazy)
    (hparents : blockId ∉ parents) :
    ∃ p', p.insert now t smi blockId parents = some p' ∧
      blockId ∈ p'.nonLazyTips ∧ p'.tips.lookup blockId = some TipMetadata.new ∧
      ∀ parent ∈ parents, ∀ md, p'.tips.lookup parent = some md → Retained now p' md := by
  obtain ⟨p', hp'⟩ := Option.isSome_iff_exists.mp
    (Flow.foldlM_isSome (addParent_isSome now blockId) parents (p.addTip blockId))
  have hins : p.insert now t smi blockId parents = some p' := by
    simp only [insert, hscore, Option.bind_eq_bind, Option.bind_some, if_true, hp']
  refine ⟨p', hins, ?_, ?_, foldlM_addParent_retained hp'⟩
  · -- the loop over the parents never removes the block itself
    rw [foldlM_addParent_mem_nonLazyTips hparents hp', nonLazyTips_addTip]
    exact Finset.mem_insert_self _ _
  · rw [foldlM_addParent_lookup_of_notMem hparents hp', tips_addTip, AList.lookup_insert]

/-- A tangle storing `3…3`, approving `1…1`, with both root snapshot indexes `⟨5, 1…1⟩`. -/
def Tangle.indexedTip : Tangle :=
  (⟨∅, ∅, ∅, ∅⟩ : Tangle).insert ⟨2, .single (.replicate 32 1), none, 0⟩ (.replicate 32 3)
    ⟨true, false, some (⟨5, .replicate 32 1⟩, ⟨5, .replicate 32 1⟩)⟩

/-- At the solid milestone index 5, `3…3` enters a pool of below-max-depth 15 as a non-lazy tip,
and its parent `1…1` with it. -/
theorem insert_retained_indexedTip :
    (new 15).tipScore Tangle.indexedTip 5 (.replicate 32 3) = some .nonLazy ∧
      (.replicate 32 3 : BlockId) ∉ [(.replicate 32 1 : BlockId)] ∧
      ∃ p', (new 15).insert 0 Tangle.indexedTip 5 (.replicate 32 3) [.replicate 32 1] = some p' ∧
        .replicate 32 3 ∈ p'.nonLazyTips ∧ p'.tips.lookup (.replicate 32 3) = some TipMetadata.new ∧
        ∀ parent ∈ [(.replicate 32 1 : BlockId)], ∀ md, p'.tips.lookup parent = some md →
          Retained 0 p' md :=
  ⟨by decide, by decide, insert_retained (by decide) (by decide)⟩

/-- The propagator either leaves the pool or inserts the block. -/
theorem insertSolidified_cases {lmi : UInt32} {p' : UrtsTipPool}
    (h : p.insertSolidified now t smi lmi blockId parents = some p') :
    p' = p ∨ p.insert now t smi blockId parents = some p' := by
  unfold UrtsTipPool.insertSolidified at h
  simp only [Option.bind_eq_bind, Option.bind_eq_some_iff] at h
  obtain ⟨lag, -, limit, -, h⟩ := h
  split at h
  · exact .inr h
  · rw [Option.pure_def, Option.some.injEq] at h
    exact .inl h.symm

/-- The propagator's insertion panics exactly where `lmi - smi` underflows, where
`below_max_depth + SAFETY_THRESHOLD` overflows, or, with the node close to synced, where
scoring the block does. -/
theorem insertSolidified_eq_none_iff {lmi : UInt32} :
    p.insertSolidified now t smi lmi blockId parents = none ↔
      lmi.toNat < smi.toNat ∨ 2 ^ 32 ≤ p.belowMaxDepth.toNat + SAFETY_THRESHOLD.toNat ∨
        (lmi.toNat - smi.toNat ≤ p.belowMaxDepth.toNat + SAFETY_THRESHOLD.toNat ∧
          p.tipScore t smi blockId = none) := by
  unfold insertSolidified
  cases hlag : lmi.checkedSub smi with
  | none =>
    simp [UInt32.checkedSub_eq_none_iff.mp hlag]
  | some lag =>
    obtain ⟨hle, hlagv⟩ := UInt32.checkedSub_eq_some_iff.mp hlag
    cases hlim : p.belowMaxDepth.checkedAdd SAFETY_THRESHOLD with
    | none =>
      simp only [Option.bind_eq_bind, Option.bind_some, Option.bind_none, true_iff]
      exact .inr (.inl (UInt32.checkedAdd_eq_none_iff.mp hlim))
    | some limit =>
      obtain ⟨hlt, hlimv⟩ := UInt32.checkedAdd_eq_some_iff.mp hlim
      have hcmp : lag ≤ limit ↔
          lmi.toNat - smi.toNat ≤ p.belowMaxDepth.toNat + SAFETY_THRESHOLD.toNat := by
        rw [UInt32.le_iff_toNat_le, hlagv, hlimv]
      simp only [Option.bind_eq_bind, Option.bind_some]
      split
      · -- close to synced: the block goes to the pool
        rename_i hsynced
        rw [insert_eq_none_iff]
        have hwithin := hcmp.mp hsynced
        constructor
        · exact fun hs => .inr (.inr ⟨hwithin, hs⟩)
        · rintro (h | h | ⟨-, hs⟩)
          · omega
          · omega
          · exact hs
      · -- far behind: the pool stays
        rename_i hbehind
        simp only [Option.pure_def, reduceCtorEq, false_iff, not_or, not_and]
        exact ⟨by omega, by omega, fun hwithin => absurd (hcmp.mpr hwithin) hbehind⟩

end Insert

/-! ### Rescoring and cleaning -/

section Scores

variable {t : Tangle} {smi : UInt32} {p p' : UrtsTipPool}

/-- The step of rescoring for one tip fails exactly when its score does. -/
theorem scoreStep_eq_none_iff {tip : BlockId} :
    (do let score ← p.tipScore t smi tip; pure (if score = Score.nonLazy then none else some tip) :
        Option (Option BlockId)) = none ↔ p.tipScore t smi tip = none := by
  cases p.tipScore t smi tip <;> simp

theorem updateScores_eq_none_iff :
    p.updateScores t smi = none ↔ ∃ tip ∈ p.tips, p.tipScore t smi tip = none := by
  -- removing the collected tips cannot fail: only collecting them can
  have hremove : ∀ o : Option (List BlockId),
      (o >>= fun toRemove => pure (p.removeAll toRemove)) = none ↔ o = none := by
    intro o
    cases o <;> simp
  unfold updateScores
  rw [hremove, Flow.filterMapM_eq_none_iff]
  simp only [AList.mem_keys, scoreStep_eq_none_iff]

/-- Rescoring that does not panic removes exactly the tips not scored non-lazy. -/
theorem updateScores_eq_some (h : p.updateScores t smi = some p') :
    ∃ toRemove, p' = p.removeAll toRemove ∧
      ∀ tip, tip ∈ toRemove ↔ tip ∈ p.tips ∧ p.tipScore t smi tip ≠ some .nonLazy := by
  -- every tip is scored, or rescoring would panic
  have hscored : ∀ tip ∈ p.tips.keys, ∃ score, p.tipScore t smi tip = some score := by
    intro tip htip
    cases hs : p.tipScore t smi tip with
    | none =>
      have := updateScores_eq_none_iff.mpr ⟨tip, AList.mem_keys.mpr htip, hs⟩
      rw [h] at this
      cases this
    | some score => exact ⟨score, rfl⟩
  have hfm := @Flow.filterMapM_eq_some _ _
    (fun tip => do
      let score ← p.tipScore t smi tip
      pure (if score = Score.nonLazy then none else some tip))
    (fun tip => if p.tipScore t smi tip = some .nonLazy then none else some tip) p.tips.keys
    (fun tip htip => by
      obtain ⟨score, hs⟩ := hscored tip htip
      simp [hs])
  unfold updateScores at h
  rw [hfm, Option.bind_eq_bind, Option.bind_some, Option.pure_def, Option.some.injEq] at h
  refine ⟨_, h.symm, fun tip => ?_⟩
  rw [List.mem_filterMap, AList.mem_keys]
  constructor
  · rintro ⟨a, ha, hk⟩
    split at hk
    · cases hk
    · rename_i hne
      cases hk
      exact ⟨ha, hne⟩
  · rintro ⟨ha, hne⟩
    exact ⟨tip, ha, by simp [hne]⟩

/-- Rescoring panics exactly when scoring one of the tips does; otherwise a tip scored non-lazy
keeps its entry, and every other tip leaves both tables. -/
theorem updateScores_spec (t : Tangle) (smi : UInt32) (p : UrtsTipPool) :
    (p.updateScores t smi = none ↔ ∃ tip ∈ p.tips, p.tipScore t smi tip = none) ∧
      ∀ p', p.updateScores t smi = some p' → ∀ tip,
        p'.tips.lookup tip =
            (if p.tipScore t smi tip = some .nonLazy then p.tips.lookup tip else none) ∧
          (tip ∈ p'.nonLazyTips ↔
            tip ∈ p.nonLazyTips ∧ (tip ∈ p.tips → p.tipScore t smi tip = some .nonLazy)) := by
  refine ⟨updateScores_eq_none_iff, fun p' h tip => ?_⟩
  obtain ⟨toRemove, rfl, hmem⟩ := updateScores_eq_some h
  simp only [lookup_removeAll, mem_nonLazyTips_removeAll, hmem]
  by_cases hs : p.tipScore t smi tip = some .nonLazy
  · simp [hs]
  · by_cases htip : tip ∈ p.tips
    · simp [hs, htip]
    · simp [hs, htip, AList.lookup_eq_none.mpr htip]

end Scores

section Clean

variable {now : Nat} {p : UrtsTipPool} {tip : BlockId}

end Clean

end UrtsTipPool

/-! ### The invariant of the pool -/

/-- What a tip's metadata satisfies in a pool the workers have built: the time of its first
child is set exactly when it has children, and it has at most `MAX_NUM_CHILDREN` of them. -/
structure TipMetadata.Wf (metadata : TipMetadata) : Prop where
  timed : metadata.timeFirstChild = none ↔ metadata.children = ∅
  children_le : metadata.children.card ≤ MAX_NUM_CHILDREN.toNat

theorem TipMetadata.wf_new : TipMetadata.new.Wf :=
  ⟨by simp [TipMetadata.new], by simp [TipMetadata.new]⟩

namespace UrtsTipPool

/-- The invariant of the pool: every non-lazy tip is a tip, and every tip's metadata is well
formed. -/
structure Inv (p : UrtsTipPool) : Prop where
  nonLazy_mem : ∀ b ∈ p.nonLazyTips, b ∈ p.tips
  wf : ∀ b md, p.tips.lookup b = some md → md.Wf

/-- The invariant away from one tip: what `add_child` leaves for the parent the rules then
check. -/
structure InvExcept (p : UrtsTipPool) (tip : BlockId) : Prop where
  nonLazy_mem : ∀ b ∈ p.nonLazyTips, b ∈ p.tips
  wf : ∀ b md, b ≠ tip → p.tips.lookup b = some md → md.Wf

/-- The metadata `add_child` gives a parent the rules keep is well formed: it has a child and
the time of its first child, and the rules bound its children. -/
theorem wf_childAdded {now : Nat} {p : UrtsTipPool} {parent child : BlockId}
    (h : Retained now p (p.childAdded now parent child)) : (p.childAdded now parent child).Wf := by
  obtain ⟨-, hle, t₀, ht, -⟩ := h
  refine ⟨?_, hle⟩
  rw [ht, childAdded, TipMetadata.children_addChild]
  simp

theorem inv_new (belowMaxDepth : UInt32) : (new belowMaxDepth).Inv :=
  ⟨by simp [new], by simp [new]⟩

section Invariant

variable {now : Nat} {t : Tangle} {smi lmi : UInt32} {p p' : UrtsTipPool} {blockId : BlockId}
  {parents : List BlockId}

theorem Inv.except (h : p.Inv) (tip : BlockId) : p.InvExcept tip :=
  ⟨h.nonLazy_mem, fun b md _ => h.wf b md⟩

theorem InvExcept.inv {tip : BlockId} (h : p.InvExcept tip)
    (hwf : ∀ md, p.tips.lookup tip = some md → md.Wf) : p.Inv := by
  refine ⟨h.nonLazy_mem, fun b md hmd => ?_⟩
  by_cases hb : b = tip
  · subst hb
    exact hwf md hmd
  · exact h.wf b md hb hmd

/-- Removing the one tip where the invariant may fail restores it. -/
theorem InvExcept.removeTip {tip : BlockId} (h : p.InvExcept tip) : (p.removeTip tip).Inv := by
  refine ⟨fun b hb => ?_, fun b md hmd => ?_⟩
  · rw [nonLazyTips_removeTip, Finset.mem_erase] at hb
    rw [tips_removeTip, AList.mem_erase]
    exact ⟨hb.1, h.nonLazy_mem b hb.2⟩
  · rw [tips_removeTip] at hmd
    by_cases hb : b = tip
    · subst hb
      rw [AList.lookup_erase] at hmd
      cases hmd
    · rw [AList.lookup_erase_ne hb] at hmd
      exact h.wf b md hb hmd

theorem Inv.removeTip (h : p.Inv) (tip : BlockId) : (p.removeTip tip).Inv :=
  (h.except tip).removeTip

theorem Inv.removeAll (h : p.Inv) (tips : List BlockId) : (p.removeAll tips).Inv := by
  induction tips generalizing p with
  | nil => exact h
  | cons x xs ih => exact ih (h.removeTip x)

theorem Inv.addTip (h : p.Inv) (blockId : BlockId) : (p.addTip blockId).Inv := by
  refine ⟨fun b hb => ?_, fun b md hmd => ?_⟩
  · rw [nonLazyTips_addTip, Finset.mem_insert] at hb
    rw [tips_addTip, AList.mem_insert]
    exact hb.imp id (h.nonLazy_mem b)
  · rw [tips_addTip] at hmd
    by_cases hb : b = blockId
    · subst hb
      rw [AList.lookup_insert, Option.some.injEq] at hmd
      subst hmd
      exact TipMetadata.wf_new
    · rw [AList.lookup_insert_ne hb] at hmd
      exact h.wf b md hmd

/-- `add_child` keeps the invariant away from the parent. -/
theorem Inv.addChild (h : p.Inv) (parent child : BlockId) :
    (p.addChild now parent child).InvExcept parent := by
  refine ⟨fun b hb => ?_, fun b md hb hmd => ?_⟩
  · rw [nonLazyTips_addChild] at hb
    rw [tips_addChild, AList.mem_insert]
    exact .inr (h.nonLazy_mem b hb)
  · rw [lookup_addChild_ne hb] at hmd
    exact h.wf b md hmd

/-- A step of `insert`'s loop keeps the invariant: the rules keep a parent only within them,
and one they drop leaves both tables. -/
theorem Inv.addParent {child parent : BlockId} (h : p.Inv)
    (hstep : p.addParent now child parent = some p') : p'.Inv := by
  rcases addParent_cases now child p parent with ⟨hr, h'⟩ | ⟨-, h'⟩ <;>
    rw [h', Option.some.injEq] at hstep <;> subst hstep
  · refine (h.addChild parent child).inv fun md hmd => ?_
    rw [lookup_addChild_self, Option.some.injEq] at hmd
    subst hmd
    exact wf_childAdded hr
  · exact (h.addChild parent child).removeTip

theorem Inv.insert (h : p.Inv) (hins : p.insert now t smi blockId parents = some p') : p'.Inv := by
  rcases insert_cases hins with rfl | hloop
  · exact h
  · -- the new tip, then one parent at a time
    exact Flow.foldlM_invariant Inv (fun _ _ _ _ hq hstep => hq.addParent hstep) hloop
      (h.addTip blockId)

theorem Inv.updateScores (h : p.Inv) (hs : p.updateScores t smi = some p') : p'.Inv := by
  obtain ⟨toRemove, rfl, -⟩ := updateScores_eq_some hs
  exact h.removeAll toRemove

theorem Inv.reduceTips (h : p.Inv) (now : Nat) : (p.reduceTips now).Inv :=
  h.removeAll _

theorem Inv.insertSolidified (h : p.Inv)
    (hins : p.insertSolidified now t smi lmi blockId parents = some p') : p'.Inv := by
  rcases insertSolidified_cases hins with rfl | hins
  · exact h
  · exact h.insert hins

/-- Each worker's action keeps the invariant. -/
theorem Inv.step (h : p.Inv) {event : TipPoolEvent} (hstep : p.step event = some p') : p'.Inv := by
  cases event with
  | solidified now t smi lmi blockId parents => exact h.insertSolidified hstep
  | updateTipScores t smi => exact h.updateScores hstep
  | reduceTips now =>
    simp only [UrtsTipPool.step, Option.some.injEq] at hstep
    exact hstep ▸ h.reduceTips now

end Invariant

/-- Over any interleaving of the propagator's insertions, the index updater's rescoring and the
cleaner's passes that does not panic, the pool built from an empty one keeps the invariant:
every non-lazy tip is a tip, a tip has the time of its first child exactly when it has children,
and no tip has more than `MAX_NUM_CHILDREN` children. -/
theorem run_inv {belowMaxDepth : UInt32} {events : List TipPoolEvent}
    (h : (new belowMaxDepth).run events = some p) : p.Inv :=
  Flow.foldlM_invariant Inv (fun _ _ _ _ hq hstep => hq.step hstep) h (inv_new belowMaxDepth)

/-- The propagator inserts `3…3` at time 0 and the cleaner runs four seconds later: the parent
`1…1`, whose first child is then too old, is dropped. -/
theorem run_inv_cleaned :
    (new 15).run [.solidified 0 Tangle.indexedTip 5 5 (.replicate 32 3) [.replicate 32 1],
        .reduceTips 4000000000] =
      some ⟨(∅ : Map BlockId TipMetadata).insert (.replicate 32 3) .new, {.replicate 32 3}, 15⟩ ∧
    (⟨(∅ : Map BlockId TipMetadata).insert (.replicate 32 3) .new, {.replicate 32 3}, 15⟩ :
      UrtsTipPool).Inv :=
  have hrun : (new 15).run [.solidified 0 Tangle.indexedTip 5 5 (.replicate 32 3) [.replicate 32 1],
      .reduceTips 4000000000] =
      some ⟨(∅ : Map BlockId TipMetadata).insert (.replicate 32 3) .new, {.replicate 32 3}, 15⟩ := rfl
  ⟨hrun, run_inv hrun⟩

end UrtsTipPool

end Bee
