import Bee.Protocol.Propagator
import Bee.Protocol.Solidifier

namespace Bee

open AssocMap

/-!
# bee-protocol — the workers of a node over one tangle

The block processor, the propagator, the milestone payload worker and the milestone
solidifier run as separate tasks over one tangle.  `Node` holds what they share: the tangle,
the propagator's channel and the stack of the `propagate` call in progress, the block of the
milestone stored at each index, the latest and the solid milestone index, and the
solidifier's `next`.  A `NodeEvent` is one step of one worker:

* `block` — the processor stores a block it does not hold yet with `BlockMetadata::arrived`,
  and sends it to the propagator (`processBlock`);
* `propagator` — one turn of `propagate`'s loop, or the start of `propagate` for the next
  block of the channel (`propagatorTurn`), so that a propagation interleaves with the other
  workers' steps;
* `milestone` — the payload worker adds a validated milestone above the solid milestone
  index with `add_milestone`, and raises the latest milestone index (`processMilestone`);
* `solidifier` — the solidifier handles an event (`handleSolidifierEvent`); the blocks and
  milestones requested, which the requesters keep, may be any.

`Node.Inv` holds of every node a run reaches (`Node.Inv.run`): the tangle is consistent, its
solid blocks have solid parents and indexes, every block ready to be made solid is on the
propagator's stack or in its channel, the solid milestone index stays between its start and
the latest one, and every milestone above its start and up to it is present and solid.
-/

/-- `add_milestone`'s update of the milestone's block: the milestone flag, and both indexes
set to the milestone's own.  (Its `set_milestone_index` writes a field not modelled.) -/
def BlockMetadata.addMilestone (index : IndexId) (md : BlockMetadata) : BlockMetadata :=
  { md with milestone := true, omrsiAndYmrsi := some (index, index) }

@[simp] theorem BlockMetadata.solid_addMilestone (index : IndexId) (md : BlockMetadata) :
    (md.addMilestone index).solid = md.solid := rfl

/-- What the workers of a node share. -/
structure Node where
  tangle : Tangle
  /-- The propagator's channel, the oldest block first. -/
  propagatorEvents : List BlockId
  /-- The stack of the `propagate` call in progress, its top last. -/
  children : List BlockId
  /-- The block of the milestone metadata stored at each index. -/
  milestoneBlockIds : Map UInt32 BlockId
  latestMilestoneIndex : UInt32
  solidMilestoneIndex : UInt32
  /-- The next milestone the solidifier requests. -/
  next : UInt32

namespace Node

/-- The block processor, for a block that passed its checks: a stored block is dropped; a new
one is stored with `BlockMetadata::arrived` and sent to the propagator. -/
def processBlock (n : Node) (block : Block) (blockId : BlockId) : Node :=
  if n.tangle.contains blockId then n
  else
    { n with
      tangle := n.tangle.insert block blockId .arrived
      propagatorEvents := n.propagatorEvents ++ [blockId] }

/-- One turn of the propagator: a turn of the `propagate` loop in progress, or with its stack
empty, the start of `propagate` for the next block of the channel.  `none` where `propagate`
panics. -/
def propagatorTurn (n : Node) : Option Node :=
  match n.children.getLast? with
  | some blockId =>
    (n.tangle.propagateStep blockId).map fun r =>
      { n with tangle := r.1, children := n.children.dropLast ++ r.2 }
  | none =>
    match n.propagatorEvents with
    | [] => some n
    | blockId :: rest => some { n with propagatorEvents := rest, children := [blockId] }

/-- The milestone payload worker, for a validated milestone of `index` in the block `blockId`:
ignored at or below the solid milestone index; otherwise added with `add_milestone`, whose
update of a block without metadata does nothing, and the latest milestone index raised. -/
def processMilestone (n : Node) (index : UInt32) (blockId : BlockId) : Node :=
  if index ≤ n.solidMilestoneIndex then n
  else
    { n with
      tangle := (n.tangle.updateMetadata blockId (BlockMetadata.addMilestone ⟨index, blockId⟩)).getD n.tangle
      milestoneBlockIds := n.milestoneBlockIds.insert index blockId
      latestMilestoneIndex := if n.latestMilestoneIndex < index then index else n.latestMilestoneIndex }

/-- The milestone solidifier's handling of an event for `index`. -/
def solidifierTurn (milestoneSyncCount : UInt32) (fuel : Nat) (requestedBlocks : Finset BlockId)
    (requestedMilestones : Finset UInt32) (index : UInt32) (n : Node) :
    Option (Node × List SolidifierOutput) :=
  (handleSolidifierEvent milestoneSyncCount fuel n.tangle n.milestoneBlockIds requestedBlocks
      requestedMilestones n.latestMilestoneIndex n.solidMilestoneIndex n.next index).map fun r =>
    ({ n with solidMilestoneIndex := r.1, next := r.2.1 }, r.2.2)

end Node

/-- One step of one worker. -/
inductive NodeEvent
  | block (block : Block) (blockId : BlockId)
  | propagator
  | milestone (index : UInt32) (blockId : BlockId)
  | solidifier (index : UInt32) (requestedBlocks : Finset BlockId) (requestedMilestones : Finset UInt32)
      (fuel : Nat)

namespace Node

/-- A step, with what the solidifier sends. -/
def step (milestoneSyncCount : UInt32) (n : Node) : NodeEvent → Option (Node × List SolidifierOutput)
  | .block block blockId => some (n.processBlock block blockId, [])
  | .propagator => n.propagatorTurn.map fun n' => (n', [])
  | .milestone index blockId => some (n.processMilestone index blockId, [])
  | .solidifier index requestedBlocks requestedMilestones fuel =>
    n.solidifierTurn milestoneSyncCount fuel requestedBlocks requestedMilestones index

/-- A run of steps, with all the solidifier sends; `none` where a step panics. -/
def run (milestoneSyncCount : UInt32) : Node → List NodeEvent → Option (Node × List SolidifierOutput)
  | n, [] => some (n, [])
  | n, e :: es => do
    let (n₁, out₁) ← n.step milestoneSyncCount e
    let (n₂, out₂) ← run milestoneSyncCount n₁ es
    pure (n₂, out₁ ++ out₂)

end Node

/-! ### What the steps do to the tangle -/

namespace Tangle

section Arrive

variable {t : Tangle} {block : Block} {x : BlockId}

/-- A block with a flag after the insert of a new block with `BlockMetadata::arrived` is an
old one, with the same metadata. -/
theorem flagged_of_insert_arrived (hxm : x ∉ t.blockIdToMetadata) {b : BlockId} {md : BlockMetadata}
    (hmd : (t.insert block x .arrived).getMetadata b = some md)
    (hflag : md.solid = true ∨ md.milestone = true) : b ≠ x ∧ t.getMetadata b = some md := by
  rw [getMetadata_insert hxm] at hmd
  by_cases hbx : b = x
  · rw [if_pos hbx, Option.some.injEq] at hmd
    subst hmd
    simp [BlockMetadata.arrived] at hflag
  · rw [if_neg hbx] at hmd
    exact ⟨hbx, hmd⟩

theorem SolidClosed.insert_arrived (h : t.SolidClosed) (hxm : x ∉ t.blockIdToMetadata) :
    (t.insert block x .arrived).SolidClosed := by
  intro b md blk hmd hs hget p hp
  obtain ⟨hbx, hmd'⟩ := flagged_of_insert_arrived hxm hmd (.inl hs)
  rw [get_insert, if_neg hbx] at hget
  rw [isSolidBlock_insert hxm rfl]
  exact h b md blk hmd' hs hget p hp

theorem SolidIndexed.insert_arrived (h : t.SolidIndexed) (hxm : x ∉ t.blockIdToMetadata) :
    (t.insert block x .arrived).SolidIndexed := by
  intro b md hmd hs hsep
  obtain ⟨-, hmd'⟩ := flagged_of_insert_arrived hxm hmd (.inl hs)
  exact h b md hmd' hs hsep

theorem MilestonesIndexed.insert_arrived (h : t.MilestonesIndexed) (hxm : x ∉ t.blockIdToMetadata) :
    (t.insert block x .arrived).MilestonesIndexed := by
  intro b md hmd hm
  obtain ⟨-, hmd'⟩ := flagged_of_insert_arrived hxm hmd (.inr hm)
  exact h b md hmd' hm

end Arrive

section Keep

variable {t t' : Tangle} {b : BlockId} {f : BlockMetadata → BlockMetadata}

/-- An update that keeps the solid flag keeps every block's flag. -/
theorem solidFlag_of_updateMetadata_keep (hf : ∀ md, (f md).solid = md.solid)
    (h : t.updateMetadata b f = some t') (c : BlockId) : t'.solidFlag c = t.solidFlag c := by
  unfold solidFlag
  rw [getMetadata_of_updateMetadata h]
  split
  · rename_i hc
    subst hc
    cases t.getMetadata c <;> simp [hf]
  · rfl

theorem isSolidBlock_of_updateMetadata_keep (hf : ∀ md, (f md).solid = md.solid)
    (h : t.updateMetadata b f = some t') (c : BlockId) : t'.isSolidBlock c = t.isSolidBlock c := by
  simp only [isSolidBlock, isSolidEntryPoint_of_updateMetadata h, solidFlag_of_updateMetadata_keep hf h]

theorem ready_of_updateMetadata_keep (hf : ∀ md, (f md).solid = md.solid)
    (h : t.updateMetadata b f = some t') (c : BlockId) : t'.Ready c ↔ t.Ready c := by
  simp only [Ready, isSolidBlock_of_updateMetadata_keep hf h, get_of_updateMetadata h]

theorem SolidClosed.updateMetadata_keep (hc : t.SolidClosed) (hf : ∀ md, (f md).solid = md.solid)
    (h : t.updateMetadata b f = some t') : t'.SolidClosed := by
  intro c md blk hmd hs hget p hp
  rw [get_of_updateMetadata h] at hget
  rw [isSolidBlock_of_updateMetadata_keep hf h]
  -- the flag read after the update is the flag before it
  have hflag : t.solidFlag c = true := by
    rw [← solidFlag_of_updateMetadata_keep hf h, solidFlag_of_getMetadata hmd, hs]
  obtain ⟨md₀, hmd₀, hs₀⟩ := solidFlag_eq_true.mp hflag
  exact hc c md₀ blk hmd₀ hs₀ hget p hp

end Keep

section AddMilestone

variable {t t' : Tangle} {b : BlockId} {i : IndexId}

theorem SolidIndexed.addMilestone (h : t.SolidIndexed)
    (hupd : t.updateMetadata b (BlockMetadata.addMilestone i) = some t') : t'.SolidIndexed := by
  intro c md hmd hs hsep
  rw [isSolidEntryPoint_of_updateMetadata hupd] at hsep
  by_cases hc : c = b
  · subst hc
    obtain ⟨md₀, -, hmd'⟩ := getMetadata_of_updateMetadata_self hupd
    rw [hmd', Option.some.injEq] at hmd
    subst hmd
    rfl
  · rw [getMetadata_of_updateMetadata_ne hupd hc] at hmd
    exact h c md hmd hs hsep

theorem MilestonesIndexed.addMilestone (h : t.MilestonesIndexed)
    (hupd : t.updateMetadata b (BlockMetadata.addMilestone i) = some t') : t'.MilestonesIndexed := by
  intro c md hmd hm
  by_cases hc : c = b
  · subst hc
    obtain ⟨md₀, -, hmd'⟩ := getMetadata_of_updateMetadata_self hupd
    rw [hmd', Option.some.injEq] at hmd
    subst hmd
    rfl
  · rw [getMetadata_of_updateMetadata_ne hupd hc] at hmd
    exact h c md hmd hm

end AddMilestone

end Tangle

/-- `add_milestone`'s update, or nothing for a block without metadata, keeps the tangle's
invariants and every block's solidity and readiness. -/
theorem Tangle.addMilestone_getD {t t' : Tangle} (hc : t.Consistent) (hcl : t.SolidClosed)
    (hi : t.SolidIndexed) (hm : t.MilestonesIndexed) {b : BlockId} {i : IndexId}
    (ht' : (t.updateMetadata b (BlockMetadata.addMilestone i)).getD t = t') :
    t'.Consistent ∧ t'.SolidClosed ∧ t'.SolidIndexed ∧ t'.MilestonesIndexed ∧
      (∀ c, t'.isSolidBlock c = t.isSolidBlock c) ∧ ∀ c, t'.Ready c ↔ t.Ready c := by
  cases hupd : t.updateMetadata b (BlockMetadata.addMilestone i) with
  | none =>
    rw [hupd, Option.getD_none] at ht'
    subst ht'
    exact ⟨hc, hcl, hi, hm, fun _ => rfl, fun _ => Iff.rfl⟩
  | some t'' =>
    rw [hupd, Option.getD_some] at ht'
    subst ht'
    have hkeep : ∀ md, (BlockMetadata.addMilestone i md).solid = md.solid := fun _ => rfl
    exact ⟨hc.updateMetadata hupd, hcl.updateMetadata_keep hkeep hupd, hi.addMilestone hupd,
      hm.addMilestone hupd, Tangle.isSolidBlock_of_updateMetadata_keep hkeep hupd,
      Tangle.ready_of_updateMetadata_keep hkeep hupd⟩

/-! ### The invariant of the node -/

namespace Node

/-- What holds of every node a run reaches from a node whose solid milestone index is
`base`: the tangle's invariants, every ready block pending at the propagator, and the solid
milestone index between `base` and the latest one, with every milestone above `base` and up
to it present and solid. -/
structure Inv (base : UInt32) (n : Node) : Prop where
  consistent : n.tangle.Consistent
  closed : n.tangle.SolidClosed
  indexed : n.tangle.SolidIndexed
  milestones : n.tangle.MilestonesIndexed
  pending : ∀ b, n.tangle.Ready b → b ∈ n.children ∨ b ∈ n.propagatorEvents
  solid_le_latest : n.solidMilestoneIndex.toNat ≤ n.latestMilestoneIndex.toNat
  base_le_solid : base.toNat ≤ n.solidMilestoneIndex.toNat
  confirmed : ∀ j : UInt32, base.toNat < j.toNat → j.toNat ≤ n.solidMilestoneIndex.toNat →
    ∃ id, n.milestoneBlockIds.lookup j = some id ∧ n.tangle.isSolidBlock id = true

variable {base : UInt32} {n n' : Node}

/-- A node whose tangle has exact solid flags starts the invariant, with its own solid
milestone index as `base`: no block is ready, so none needs to be pending. -/
theorem inv_start (hc : n.tangle.Consistent) (hg : n.tangle.Good) (hm : n.tangle.MilestonesIndexed)
    (hle : n.solidMilestoneIndex.toNat ≤ n.latestMilestoneIndex.toNat) : n.Inv n.solidMilestoneIndex where
  consistent := hc
  closed := hg.closed
  indexed := hg.indexed
  milestones := hm
  pending b hb := absurd hb (Tangle.solidComplete_iff.mp hg.complete b)
  solid_le_latest := hle
  base_le_solid := le_refl _
  confirmed _ hj₁ hj₂ := absurd hj₂ (by omega)

/-- Whenever the propagator is idle, the solid flags are exact. -/
theorem Inv.good (h : n.Inv base) (hchildren : n.children = []) (hevents : n.propagatorEvents = []) :
    n.tangle.Good := by
  refine ⟨h.closed, Tangle.solidComplete_iff.mpr fun b hb => ?_, h.indexed⟩
  rcases h.pending b hb with hb | hb
  · rw [hchildren] at hb
    cases hb
  · rw [hevents] at hb
    cases hb

theorem Inv.processBlock (h : n.Inv base) (block : Block) (blockId : BlockId) :
    (n.processBlock block blockId).Inv base := by
  unfold Node.processBlock
  split
  · exact h
  · rename_i hcontains
    have hx : blockId ∉ n.tangle.blockIdToBlock := by simpa [Tangle.contains] using hcontains
    have hxm : blockId ∉ n.tangle.blockIdToMetadata :=
      fun hm => hx ((h.consistent.metadata_iff _).mp hm)
    refine ⟨h.consistent.insert hx, h.closed.insert_arrived hxm, h.indexed.insert_arrived hxm,
      h.milestones.insert_arrived hxm, fun b hb => ?_, h.solid_le_latest, h.base_le_solid,
      fun j hj₁ hj₂ => ?_⟩
    · -- the new block is in the channel; any other ready block was ready before
      by_cases hbx : b = blockId
      · exact .inr (by simp [hbx])
      · rcases h.pending b ((Tangle.ready_insert hxm rfl hbx).mp hb) with hb' | hb'
        · exact .inl hb'
        · exact .inr (List.mem_append_left _ hb')
    · obtain ⟨id, hid, hs⟩ := h.confirmed j hj₁ hj₂
      exact ⟨id, hid, by rw [Tangle.isSolidBlock_insert hxm rfl]; exact hs⟩

theorem propagatorTurn_pop {pre : List BlockId} {b : BlockId} (hc : n.children = pre ++ [b]) :
    n.propagatorTurn =
      (n.tangle.propagateStep b).map fun r => { n with tangle := r.1, children := pre ++ r.2 } := by
  simp [Node.propagatorTurn, hc]

/-- **The propagator never panics**, and its turn keeps the invariant: a block that is not
ready is dropped; a ready one is marked, and the blocks it makes ready are its children, which
are pushed. -/
theorem Inv.propagatorTurn (h : n.Inv base) : ∃ n', n.propagatorTurn = some n' ∧ n'.Inv base := by
  rcases Search.stack_cases n.children with hnil | ⟨pre, b, hc⟩
  · -- no propagation in progress: the next block of the channel starts one
    cases hevents : n.propagatorEvents with
    | nil => exact ⟨n, by simp [Node.propagatorTurn, hnil, hevents], h⟩
    | cons x rest =>
      refine ⟨{ n with propagatorEvents := rest, children := [x] },
        by simp [Node.propagatorTurn, hnil, hevents], { h with pending := fun c hc => ?_ }⟩
      rcases h.pending c hc with hc' | hc'
      · rw [hnil] at hc'
        cases hc'
      · rw [hevents, List.mem_cons] at hc'
        rcases hc' with rfl | hc'
        · exact .inl (List.mem_singleton_self _)
        · exact .inr hc'
  · rw [propagatorTurn_pop hc]
    by_cases hready : n.tangle.Ready b
    · have hmeta : b ∈ n.tangle.blockIdToMetadata := by
        obtain ⟨-, blk, hget, -⟩ := hready
        exact (h.consistent.metadata_iff b).mpr (AssocMap.mem_of_lookup_eq_some hget)
      obtain ⟨block, -, omrsi, ymrsi, t', hget, -, -, -, hupd, hstep⟩ :=
        Tangle.propagateStep_of_ready hready h.indexed hmeta
      refine ⟨_, by rw [hstep]; rfl, ?_⟩
      refine ⟨h.consistent.updateMetadata hupd, h.closed.solidify hupd hget ?_,
        h.indexed.solidify hupd h.milestones, h.milestones.solidify hupd, fun c hc' => ?_,
        h.solid_le_latest, h.base_le_solid, fun j hj₁ hj₂ => ?_⟩
      · obtain ⟨-, blk, hget', hpar⟩ := hready
        rw [hget, Option.some.injEq] at hget'
        subst hget'
        exact hpar
      · -- a block ready after the mark was ready before, or is a child of the marked block
        obtain ⟨hcb, hc₀ | hchild⟩ := Tangle.ready_of_solidify hupd h.consistent hc'
        · rcases h.pending c hc₀ with hc₁ | hc₁
          · rw [hc, List.mem_append, List.mem_singleton] at hc₁
            exact .inl (List.mem_append_left _ (hc₁.resolve_right hcb))
          · exact .inr hc₁
        · exact .inl (List.mem_append_right _ hchild)
      · obtain ⟨id, hid, hs⟩ := h.confirmed j hj₁ hj₂
        exact ⟨id, hid, (Tangle.isSolidBlock_of_solidify hupd id).mpr (.inr hs)⟩
    · rw [Tangle.propagateStep_of_not_ready hready]
      refine ⟨_, rfl, { h with pending := fun c hc' => ?_ }⟩
      -- the dropped block is not ready, so every ready block is still pending
      have hcb : c ≠ b := fun hcb => hready (hcb ▸ hc')
      rcases h.pending c hc' with hc₁ | hc₁
      · rw [hc, List.mem_append, List.mem_singleton] at hc₁
        exact .inl (List.mem_append_left _ (hc₁.resolve_right hcb))
      · exact .inr hc₁

theorem Inv.processMilestone (h : n.Inv base) (index : UInt32) (blockId : BlockId) :
    (n.processMilestone index blockId).Inv base := by
  unfold Node.processMilestone
  split
  · exact h
  · rename_i hindex
    have hlt : n.solidMilestoneIndex.toNat < index.toNat := by
      rw [UInt32.le_iff_toNat_le] at hindex
      omega
    obtain ⟨hc, hcl, hi, hm, hsolid, hready⟩ :=
      Tangle.addMilestone_getD h.consistent h.closed h.indexed h.milestones rfl
    refine ⟨hc, hcl, hi, hm, fun b hb => h.pending b ((hready b).mp hb), ?_, h.base_le_solid,
      fun j hj₁ hj₂ => ?_⟩
    · -- the latest milestone index only grows
      have hle := h.solid_le_latest
      show n.solidMilestoneIndex.toNat ≤
        (if n.latestMilestoneIndex < index then index else n.latestMilestoneIndex).toNat
      split
      · omega
      · exact hle
    · -- the milestones up to the solid index are not overwritten
      change j.toNat ≤ n.solidMilestoneIndex.toNat at hj₂
      obtain ⟨id, hid, hs⟩ := h.confirmed j hj₁ hj₂
      have hj : j ≠ index := fun hj => by subst hj; omega
      exact ⟨id, by rw [AList.lookup_insert_ne hj]; exact hid, by rw [hsolid]; exact hs⟩

/-- What a step or a run does to the milestones: the solid milestone index only grows; the
solidifier confirms exactly the milestones it moves over, in order; the milestones at or below
the old index keep their blocks; and each milestone confirmed is the block stored at its index
afterwards. -/
structure Advance (n n' : Node) (out : List SolidifierOutput) : Prop where
  mono : n.solidMilestoneIndex.toNat ≤ n'.solidMilestoneIndex.toNat
  confirms : (SolidifierOutput.solidifiedOf out).map (·.2.toNat) =
    List.range' (n.solidMilestoneIndex.toNat + 1) (n'.solidMilestoneIndex.toNat - n.solidMilestoneIndex.toNat)
  frozen : ∀ j : UInt32, j.toNat ≤ n.solidMilestoneIndex.toNat →
    n'.milestoneBlockIds.lookup j = n.milestoneBlockIds.lookup j
  present : ∀ p ∈ SolidifierOutput.solidifiedOf out, n'.milestoneBlockIds.lookup p.2 = some p.1

theorem Advance.refl (n : Node) : Advance n n [] where
  mono := le_refl _
  confirms := by simp
  frozen _ _ := rfl
  present := by simp

/-- A step that leaves the solid milestone index, sends nothing, and changes milestones only
above the index. -/
theorem Advance.quiet {n n' : Node} (hsmi : n'.solidMilestoneIndex = n.solidMilestoneIndex)
    (hfrozen : ∀ j : UInt32, j.toNat ≤ n.solidMilestoneIndex.toNat →
      n'.milestoneBlockIds.lookup j = n.milestoneBlockIds.lookup j) : Advance n n' [] where
  mono := by rw [hsmi]
  confirms := by simp [hsmi]
  frozen := hfrozen
  present := by simp

/-- Advances compose: the confirmations of the two parts join into one range, and what the
first confirmed stays at or below the index the second starts from. -/
theorem Advance.trans {n₁ n₂ n₃ : Node} {out₁ out₂ : List SolidifierOutput} (h₁ : Advance n₁ n₂ out₁)
    (h₂ : Advance n₂ n₃ out₂) : Advance n₁ n₃ (out₁ ++ out₂) where
  mono := le_trans h₁.mono h₂.mono
  confirms := by
    have hjoin : n₃.solidMilestoneIndex.toNat - n₁.solidMilestoneIndex.toNat =
        (n₂.solidMilestoneIndex.toNat - n₁.solidMilestoneIndex.toNat) +
          (n₃.solidMilestoneIndex.toNat - n₂.solidMilestoneIndex.toNat) := by
      have := h₁.mono
      have := h₂.mono
      omega
    have hstart : n₂.solidMilestoneIndex.toNat + 1 = n₁.solidMilestoneIndex.toNat + 1 +
        (n₂.solidMilestoneIndex.toNat - n₁.solidMilestoneIndex.toNat) := by
      have := h₁.mono
      omega
    rw [SolidifierOutput.solidifiedOf_append, List.map_append, h₁.confirms, h₂.confirms, hjoin, hstart,
      List.range'_append_1]
  frozen j hj := by
    rw [h₂.frozen j (le_trans hj h₁.mono), h₁.frozen j hj]
  present p hp := by
    rw [SolidifierOutput.solidifiedOf_append, List.mem_append] at hp
    rcases hp with hp | hp
    · -- confirmed by the first part, so at or below the index the second starts from
      have hmem : p.2.toNat ∈ (SolidifierOutput.solidifiedOf out₁).map (·.2.toNat) :=
        List.mem_map_of_mem hp
      rw [h₁.confirms, List.mem_range'_1] at hmem
      rw [h₂.frozen p.2 (by omega)]
      exact h₁.present p hp
    · exact h₂.present p hp

theorem Inv.solidifierTurn (h : n.Inv base) {milestoneSyncCount : UInt32} {fuel : Nat}
    {R : Finset BlockId} {M : Finset UInt32} {index : UInt32} {out : List SolidifierOutput}
    (hturn : n.solidifierTurn milestoneSyncCount fuel R M index = some (n', out)) :
    n'.Inv base ∧ Advance n n' out := by
  obtain ⟨⟨smi', next', out'⟩, hhandle, hres⟩ := Option.map_eq_some_iff.mp hturn
  simp only [Prod.mk.injEq] at hres
  obtain ⟨rfl, rfl⟩ := hres
  obtain ⟨hmono, hle, hrange, hsolid, -⟩ := handleSolidifierEvent_spec hhandle
  refine ⟨{ h with
    solid_le_latest := hle h.solid_le_latest
    base_le_solid := le_trans h.base_le_solid hmono
    confirmed := fun j hj₁ hj₂ => ?_ }, ⟨hmono, hrange, fun _ _ => rfl, fun p hp => (hsolid p hp).1⟩⟩
  change j.toNat ≤ smi'.toNat at hj₂
  by_cases hj : j.toNat ≤ n.solidMilestoneIndex.toNat
  · exact h.confirmed j hj₁ hj
  · -- a milestone above the old index is one the event confirmed
    have hmem : j.toNat ∈ (SolidifierOutput.solidifiedOf out').map (·.2.toNat) := by
      rw [hrange, List.mem_range'_1]
      omega
    obtain ⟨p, hp, hpj⟩ := List.mem_map.mp hmem
    have hpj' : p.2 = j := UInt32.toNat_inj.mp hpj
    exact ⟨p.1, hpj' ▸ (hsolid p hp).1, (hsolid p hp).2⟩

/-- One step of any worker keeps the invariant and advances the milestones. -/
theorem Inv.step (h : n.Inv base) {milestoneSyncCount : UInt32} {e : NodeEvent}
    {out : List SolidifierOutput} (hstep : n.step milestoneSyncCount e = some (n', out)) :
    n'.Inv base ∧ Advance n n' out := by
  cases e with
  | block block blockId =>
    simp only [Node.step, Option.some.injEq, Prod.mk.injEq] at hstep
    obtain ⟨rfl, rfl⟩ := hstep
    refine ⟨h.processBlock block blockId, Advance.quiet ?_ fun j _ => ?_⟩ <;>
      unfold Node.processBlock <;> split <;> rfl
  | propagator =>
    obtain ⟨n₁, hturn, hinv⟩ := h.propagatorTurn
    simp only [Node.step, hturn, Option.map_some, Option.some.injEq, Prod.mk.injEq] at hstep
    obtain ⟨rfl, rfl⟩ := hstep
    -- a turn of the propagator touches only the tangle and its own stack and channel
    have hkeep : n₁.solidMilestoneIndex = n.solidMilestoneIndex ∧
        n₁.milestoneBlockIds = n.milestoneBlockIds := by
      unfold Node.propagatorTurn at hturn
      split at hturn
      · obtain ⟨r, -, rfl⟩ := Option.map_eq_some_iff.mp hturn
        exact ⟨rfl, rfl⟩
      · split at hturn <;> (simp only [Option.some.injEq] at hturn; subst hturn; exact ⟨rfl, rfl⟩)
    exact ⟨hinv, Advance.quiet hkeep.1 fun j _ => by rw [hkeep.2]⟩
  | milestone index blockId =>
    simp only [Node.step, Option.some.injEq, Prod.mk.injEq] at hstep
    obtain ⟨rfl, rfl⟩ := hstep
    refine ⟨h.processMilestone index blockId, Advance.quiet ?_ fun j hj => ?_⟩
    · unfold Node.processMilestone
      split <;> rfl
    · -- a milestone is added only above the solid milestone index
      unfold Node.processMilestone
      split
      · rfl
      · rename_i hindex
        have hne : j ≠ index := by
          rintro rfl
          exact hindex (UInt32.le_iff_toNat_le.mpr hj)
        exact AList.lookup_insert_ne hne
  | solidifier index R M fuel => exact h.solidifierTurn hstep

/-- **A run of the node's workers.**  From a node that keeps the invariant, every run that
does not panic ends in a node that keeps it, and advances the milestones. -/
theorem Inv.run (h : n.Inv base) {milestoneSyncCount : UInt32} :
    ∀ {es : List NodeEvent} {n' : Node} {out : List SolidifierOutput},
      n.run milestoneSyncCount es = some (n', out) → n'.Inv base ∧ Advance n n' out := by
  intro es
  induction es generalizing n with
  | nil =>
    intro n' out hrun
    simp only [Node.run, Option.some.injEq, Prod.mk.injEq] at hrun
    obtain ⟨rfl, rfl⟩ := hrun
    exact ⟨h, Advance.refl n⟩
  | cons e es ih =>
    intro n' out hrun
    simp only [Node.run, Option.bind_eq_bind, Option.bind_eq_some_iff, Option.pure_def,
      Option.some.injEq] at hrun
    obtain ⟨⟨n₁, out₁⟩, hstep, ⟨n₂, out₂⟩, hrest, hres⟩ := hrun
    simp only [Prod.mk.injEq] at hres
    obtain ⟨rfl, rfl⟩ := hres
    obtain ⟨h₁, hadv₁⟩ := h.step hstep
    obtain ⟨h₂, hadv₂⟩ := ih h₁ hrest
    exact ⟨h₂, hadv₁.trans hadv₂⟩

/-- **Solidity stays exact across interleavings.**  From a node whose tangle is consistent,
has exact solid flags and indexed milestones, and whose solid milestone index is at most the
latest one, every run of the workers that does not panic ends in a node whose tangle is
consistent and whose solid blocks have solid parents and indexes, where every block ready to
be made solid is on the propagator's stack or in its channel, where the propagator's next turn
does not panic, and whose solid flags are exact whenever the propagator is idle. -/
theorem run_solid_exact (n₀ : Node) (hc : n₀.tangle.Consistent) (hg : n₀.tangle.Good)
    (hm : n₀.tangle.MilestonesIndexed)
    (hle : n₀.solidMilestoneIndex.toNat ≤ n₀.latestMilestoneIndex.toNat) {milestoneSyncCount : UInt32}
    {es : List NodeEvent} {n : Node} {out : List SolidifierOutput}
    (hrun : n₀.run milestoneSyncCount es = some (n, out)) :
    n.tangle.Consistent ∧ n.tangle.SolidClosed ∧ n.tangle.SolidIndexed ∧
      (∀ b, n.tangle.Ready b → b ∈ n.children ∨ b ∈ n.propagatorEvents) ∧
      n.propagatorTurn.isSome ∧ (n.children = [] → n.propagatorEvents = [] → n.tangle.Good) := by
  obtain ⟨h, -⟩ := (inv_start hc hg hm hle).run hrun
  obtain ⟨n', hturn, -⟩ := h.propagatorTurn
  exact ⟨h.consistent, h.closed, h.indexed, h.pending, by rw [hturn]; rfl, h.good⟩

/-- **Milestones are confirmed in order.**  From a node as above, over every run of the workers
that does not panic, the solidifier confirms exactly the milestones from the one after the
start's solid milestone index to the end's, in order and each once; the end's solid milestone
index is at most its latest one; and each milestone confirmed is the block stored at its index
at the end, and is solid then. -/
theorem run_confirms_in_order (n₀ : Node) (hc : n₀.tangle.Consistent) (hg : n₀.tangle.Good)
    (hm : n₀.tangle.MilestonesIndexed)
    (hle : n₀.solidMilestoneIndex.toNat ≤ n₀.latestMilestoneIndex.toNat) {milestoneSyncCount : UInt32}
    {es : List NodeEvent} {n : Node} {out : List SolidifierOutput}
    (hrun : n₀.run milestoneSyncCount es = some (n, out)) :
    (SolidifierOutput.solidifiedOf out).map (·.2.toNat) =
        List.range' (n₀.solidMilestoneIndex.toNat + 1)
          (n.solidMilestoneIndex.toNat - n₀.solidMilestoneIndex.toNat) ∧
      n.solidMilestoneIndex.toNat ≤ n.latestMilestoneIndex.toNat ∧
      ∀ p ∈ SolidifierOutput.solidifiedOf out,
        n.milestoneBlockIds.lookup p.2 = some p.1 ∧ n.tangle.isSolidBlock p.1 = true := by
  obtain ⟨h, hadv⟩ := (inv_start hc hg hm hle).run hrun
  refine ⟨hadv.confirms, h.solid_le_latest, fun p hp => ⟨hadv.present p hp, ?_⟩⟩
  -- a confirmed milestone lies above the start and at or below the end's index
  have hmem : p.2.toNat ∈ (SolidifierOutput.solidifiedOf out).map (·.2.toNat) := List.mem_map_of_mem hp
  rw [hadv.confirms, List.mem_range'_1] at hmem
  obtain ⟨id, hid, hs⟩ := h.confirmed p.2 (by omega) (by omega)
  rw [hadv.present p hp, Option.some.injEq] at hid
  exact hid ▸ hs

end Node

/-! ### A run from an entry point -/

/-- A node holding nothing but the solid entry point `1…1` of index 0. -/
def Node.genesis : Node :=
  ⟨⟨∅, ∅, ∅, (∅ : Map BlockId UInt32).insert (.replicate 32 1) 0⟩, [], [], ∅, 0, 0, 1⟩

/-- A block on the entry point arrives, the propagator takes it and makes it solid, it is the
block of milestone 1, and the solidifier handles an event. -/
def Node.genesisEvents : List NodeEvent :=
  [.block ⟨2, .single (.replicate 32 1), none, 0⟩ (.replicate 32 2), .propagator, .propagator,
    .milestone 1 (.replicate 32 2), .solidifier 1 ∅ ∅ 4]

theorem genesis_run_isSome : (Node.genesis.run 2 Node.genesisEvents).isSome := by decide +kernel

theorem node_genesis_solid_exact :
    ∃ n out, Node.genesis.run 2 Node.genesisEvents = some (n, out) ∧
      n.tangle.Consistent ∧ n.tangle.SolidClosed ∧ n.tangle.SolidIndexed ∧
      (∀ b, n.tangle.Ready b → b ∈ n.children ∨ b ∈ n.propagatorEvents) ∧
      n.propagatorTurn.isSome ∧ (n.children = [] → n.propagatorEvents = [] → n.tangle.Good) := by
  obtain ⟨⟨n, out⟩, hrun⟩ := Option.isSome_iff_exists.mp genesis_run_isSome
  exact ⟨n, out, hrun, Node.run_solid_exact Node.genesis (by decide) (by decide) (by decide) (by decide) hrun⟩

theorem node_genesis_confirms :
    ∃ n out, Node.genesis.run 2 Node.genesisEvents = some (n, out) ∧
      SolidifierOutput.solidifiedOf out = [(.replicate 32 2, 1)] ∧
      (SolidifierOutput.solidifiedOf out).map (·.2.toNat) =
        List.range' (Node.genesis.solidMilestoneIndex.toNat + 1)
          (n.solidMilestoneIndex.toNat - Node.genesis.solidMilestoneIndex.toNat) ∧
      n.solidMilestoneIndex.toNat ≤ n.latestMilestoneIndex.toNat ∧
      ∀ p ∈ SolidifierOutput.solidifiedOf out,
        n.milestoneBlockIds.lookup p.2 = some p.1 ∧ n.tangle.isSolidBlock p.1 = true := by
  obtain ⟨⟨n, out⟩, hrun⟩ := Option.isSome_iff_exists.mp genesis_run_isSome
  have hout : (Node.genesis.run 2 Node.genesisEvents).map (fun r => SolidifierOutput.solidifiedOf r.2) =
      some [(.replicate 32 2, 1)] := by decide +kernel
  rw [hrun, Option.map_some, Option.some.injEq] at hout
  exact ⟨n, out, hrun, hout,
    Node.run_confirms_in_order Node.genesis (by decide) (by decide) (by decide) (by decide) hrun⟩

end Bee
