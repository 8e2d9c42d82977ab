import Bee.Tangle.Traversal
import Bee.Ledger.PastCone
import Bee.Lib.Word

namespace Bee

open AssocMap

/-!
# bee-protocol — heavy solidification of a milestone

When a milestone's block is not solid, `heavy_solidification` walks its past cone with
`visit_parents_depth_first`, through the blocks that are neither flagged solid nor requested
already, collects the ids it finds without block or metadata, and passes each to
`request_block`, which asks the block requester for those that are not stored, not solid
entry points and not requested.  `RequestedBlocks` is read only through `contains`, so it is
modelled by its ids.

* `heavySolidification_requests` — the requests name each block at most once, and exactly
  the blocks the walk reaches that are neither stored, nor entry points, nor requested;
* `heavySolidification_progress` — in a consistent tangle whose solid flags are complete
  and whose parents lie below their children, an unsolid milestone always gets a request
  out, unless its walk has met an unsolid block that is requested already: the solidifier
  never waits for nothing.
-/

/-- `request_block`: the event sent to the block requester, for a block that is not stored,
not a solid entry point and not requested already. -/
def requestBlock (t : Tangle) (requestedBlocks : Finset BlockId) (blockId : BlockId) (index : UInt32) :
    Option (BlockId × UInt32) :=
  if !t.contains blockId && !t.isSolidEntryPoint blockId && !decide (blockId ∈ requestedBlocks) then
    some (blockId, index)
  else none

/-- The `matches` of heavy solidification: a block not flagged solid and not requested. -/
def heavyMatch (requestedBlocks : Finset BlockId) (id : BlockId) (_ : Block) (metadata : BlockMetadata) :
    Bool :=
  !metadata.solid && !decide (id ∈ requestedBlocks)

/-- The walk of heavy solidification: only `missing_apply` does something, pushing the id. -/
def heavyVisit (t : Tangle) (requestedBlocks : Finset BlockId) :
    BlockId → List BlockId → List BlockId × List BlockId :=
  t.visitParent (heavyMatch requestedBlocks) (fun _ _ _ missing => missing)
    (fun _ _ _ missing => missing) (fun missingId missing => missing ++ [missingId])

/-- `heavy_solidification` of the milestone `targetId` of index `targetIndex`: the requests
sent, and the number of missing blocks it returns.  `none` when `fuel` runs out. -/
def heavySolidification (t : Tangle) (requestedBlocks : Finset BlockId) (fuel : Nat)
    (targetIndex : UInt32) (targetId : BlockId) : Option (List (BlockId × UInt32) × Nat) :=
  (t.visitParentsDepthFirst fuel targetId (heavyMatch requestedBlocks) (fun _ _ _ missing => missing)
      (fun _ _ _ missing => missing) (fun missingId missing => missing ++ [missingId]) []).map
    fun missing =>
      (missing.filterMap fun missingId => requestBlock t requestedBlocks missingId targetIndex,
        missing.length)

section Heavy

variable {t : Tangle} {R : Finset BlockId}

theorem requestBlock_eq_some {b : BlockId} {index : UInt32} {r : BlockId × UInt32} :
    requestBlock t R b index = some r ↔
      r = (b, index) ∧ t.get b = none ∧ t.isSolidEntryPoint b = false ∧ b ∉ R := by
  unfold requestBlock
  split
  · rename_i h
    simp only [Bool.and_eq_true, Bool.not_eq_eq_eq_not, Bool.not_true, decide_eq_false_iff_not] at h
    obtain ⟨⟨hc, hsep⟩, hR⟩ := h
    simp [Tangle.contains_eq_false.mp hc, hsep, hR, eq_comm]
  · rename_i h
    simp only [Bool.and_eq_true, Bool.not_eq_eq_eq_not, Bool.not_true, decide_eq_false_iff_not,
      not_and] at h
    simp only [reduceCtorEq, false_iff, not_and]
    intro _ hget hsep hR
    exact h ⟨Tangle.contains_eq_false.mpr hget, hsep⟩ hR

/-- The walk collects, in order, the blocks it finds without block or metadata. -/
theorem applyAll_heavyVisit (order acc : List BlockId) :
    Search.applyAll (heavyVisit t R) order acc =
      acc ++ order.filter fun y => (t.getBlockAndMetadata y).isNone := by
  induction order generalizing acc with
  | nil => simp [Search.applyAll]
  | cons y order ih =>
    rw [Search.applyAll, List.foldl_cons, ← Search.applyAll, ih, List.filter_cons]
    unfold heavyVisit Tangle.visitParent
    split
    · rename_i hbm
      split <;> simp [hbm]
    · rename_i hbm
      simp [hbm]

/-- What the walk of a finished heavy solidification collected. -/
theorem heavySolidification_missing {fuel : Nat} {targetIndex : UInt32} {targetId : BlockId}
    {reqs : List (BlockId × UInt32)} {n : Nat}
    (h : heavySolidification t R fuel targetIndex targetId = some (reqs, n)) :
    ∃ missing : List BlockId, missing.Nodup ∧
      (∀ y, y ∈ missing ↔ t.Walked (heavyMatch R) targetId y ∧ t.getBlockAndMetadata y = none) ∧
      reqs = missing.filterMap (fun y => requestBlock t R y targetIndex) ∧ n = missing.length := by
  obtain ⟨missing, hwalk, hres⟩ := Option.map_eq_some_iff.mp h
  obtain ⟨order, hnd, hmem, hmissing⟩ := Tangle.visitParentsDepthFirst_spec hwalk
  have hcoll : missing = order.filter fun y => (t.getBlockAndMetadata y).isNone := by
    rw [hmissing]
    exact (applyAll_heavyVisit order []).trans (List.nil_append _)
  simp only [Prod.mk.injEq] at hres
  obtain ⟨rfl, rfl⟩ := hres
  refine ⟨missing, hcoll ▸ hnd.filter _, fun y => ?_, rfl, rfl⟩
  rw [hcoll, List.mem_filter, hmem y]
  simp

/-- The requests of a finished heavy solidification are its missing blocks that
`request_block` lets through, each with the milestone's index. -/
theorem heavySolidification_fst {fuel : Nat} {targetIndex : UInt32} {targetId : BlockId}
    {reqs : List (BlockId × UInt32)} {n : Nat}
    (h : heavySolidification t R fuel targetIndex targetId = some (reqs, n)) :
    ∃ missing : List BlockId, missing.Nodup ∧
      (∀ y, y ∈ missing ↔ t.Walked (heavyMatch R) targetId y ∧ t.getBlockAndMetadata y = none) ∧
      reqs.map Prod.fst = missing.filter (fun y => (requestBlock t R y targetIndex).isSome) ∧
      ∀ r ∈ reqs, r.2 = targetIndex := by
  obtain ⟨missing, hnd, hmem, rfl, -⟩ := heavySolidification_missing h
  refine ⟨missing, hnd, hmem, ?_, fun r hr => ?_⟩
  · rw [List.map_filterMap, ← List.filterMap_eq_filter]
    refine List.filterMap_congr fun y _ => ?_
    cases hreq : requestBlock t R y targetIndex with
    | none => simp [Option.guard, hreq]
    | some r => simp [Option.guard, hreq, (requestBlock_eq_some.mp hreq).1]
  · obtain ⟨y, -, hreq⟩ := List.mem_filterMap.mp hr
    rw [(requestBlock_eq_some.mp hreq).1]

/-- A block is requested by a finished heavy solidification exactly when its walk reaches it
and it is neither stored, nor a solid entry point, nor requested already. -/
theorem mem_heavySolidification_requests {fuel : Nat} {targetIndex : UInt32} {targetId : BlockId}
    {reqs : List (BlockId × UInt32)} {n : Nat}
    (h : heavySolidification t R fuel targetIndex targetId = some (reqs, n)) (y : BlockId) :
    y ∈ reqs.map Prod.fst ↔
      t.Walked (heavyMatch R) targetId y ∧ t.get y = none ∧ t.isSolidEntryPoint y = false ∧ y ∉ R := by
  obtain ⟨missing, -, hmem, hmap, -⟩ := heavySolidification_fst h
  rw [hmap, List.mem_filter, hmem y, Option.isSome_iff_exists]
  constructor
  · rintro ⟨⟨hw, -⟩, r, hreq⟩
    obtain ⟨-, hget, hsep, hR⟩ := requestBlock_eq_some.mp hreq
    exact ⟨hw, hget, hsep, hR⟩
  · rintro ⟨hw, hget, hsep, hR⟩
    have hbm : t.getBlockAndMetadata y = none := by simp [Tangle.getBlockAndMetadata, hget]
    exact ⟨⟨hw, hbm⟩, _, requestBlock_eq_some.mpr ⟨rfl, hget, hsep, hR⟩⟩

/-- **Requests of heavy solidification.**  A finished heavy solidification names each block
at most once, always with the milestone's index, and names exactly the blocks its walk
reaches through unsolid, unrequested blocks that are neither stored, nor solid entry points,
nor requested already. -/
theorem heavySolidification_requests {fuel : Nat} {targetIndex : UInt32} {targetId : BlockId}
    {reqs : List (BlockId × UInt32)} {n : Nat}
    (h : heavySolidification t R fuel targetIndex targetId = some (reqs, n)) :
    (reqs.map Prod.fst).Nodup ∧ (∀ r ∈ reqs, r.2 = targetIndex) ∧
      ∀ y, y ∈ reqs.map Prod.fst ↔
        t.Walked (heavyMatch R) targetId y ∧ t.get y = none ∧ t.isSolidEntryPoint y = false ∧ y ∉ R := by
  obtain ⟨missing, hnd, -, hmap, hindex⟩ := heavySolidification_fst h
  exact ⟨hmap ▸ hnd.filter _, hindex, mem_heavySolidification_requests h⟩

/-- Below an unsolid block the walk meets either a block to request or an unsolid block that
is requested already: the walk goes on through the unsolid parent that completeness gives,
and the rank bounds how far. -/
theorem exists_request_or_pending (hc : t.Consistent) (hcomplete : t.SolidComplete)
    (rank : BlockId → Nat) (hrank : ∀ p c, t.Approves p c → rank p < rank c) (root : BlockId) :
    ∀ y, t.Walked (heavyMatch R) root y → t.isSolidBlock y = false →
      (∃ z, t.Walked (heavyMatch R) root z ∧ t.get z = none ∧ t.isSolidEntryPoint z = false ∧ z ∉ R) ∨
        ∃ z, t.Walked (heavyMatch R) root z ∧ z ∈ R ∧ t.isSolidBlock z = false := by
  intro y
  induction hn : rank y using Nat.strong_induction_on generalizing y with
  | _ n ih =>
    intro hw hy
    obtain ⟨hsep, hflag⟩ := Tangle.isSolidBlock_eq_false.mp hy
    by_cases hR : y ∈ R
    · exact Or.inr ⟨y, hw, hR, hy⟩
    cases hbm : t.getBlockAndMetadata y with
    | none =>
      -- a missing block: not stored, and not an entry point since it is not solid
      exact Or.inl ⟨y, hw, (hc.getBlockAndMetadata_eq_none).mp hbm, hsep, hR⟩
    | some bm =>
      obtain ⟨block, md⟩ := bm
      obtain ⟨hget, hmd⟩ := Tangle.getBlockAndMetadata_eq_some.mp hbm
      have hsolid : md.solid = false := by rw [← Tangle.solidFlag_of_getMetadata hmd, hflag]
      have hmatch : heavyMatch R y block md = true := by simp [heavyMatch, hsolid, hR]
      -- completeness: a stored, unsolid block that is no entry point has an unsolid parent
      have hparent : ∃ p ∈ block.parents.toList, t.isSolidBlock p = false := by
        by_contra hall
        push Not at hall
        have := hcomplete y block hget hsep fun p hp => by simpa using hall p hp
        rw [hflag] at this
        exact Bool.false_ne_true this
      obtain ⟨p, hp, hpsolid⟩ := hparent
      have hlt : rank p < n := hn ▸ hrank p y ⟨block, hget, hp⟩
      exact ih (rank p) hlt p rfl (hw.parent hbm hmatch hp) hpsolid

/-- **Progress of heavy solidification.**  In a consistent tangle whose stored blocks with
solid parents are flagged solid, and whose parents lie below their children in some rank,
heavy solidification of an unsolid milestone finishes once the fuel exceeds the parent
references, and either requests some block or has met an unsolid block that is requested
already. -/
theorem heavySolidification_progress (hc : t.Consistent) (hcomplete : t.SolidComplete)
    (rank : BlockId → Nat) (hrank : ∀ p c, t.Approves p c → rank p < rank c) {fuel : Nat}
    (hfuel : t.parentCount + 1 < fuel) (targetIndex : UInt32) {targetId : BlockId}
    (htarget : t.isSolidBlock targetId = false) :
    ∃ reqs n, heavySolidification t R fuel targetIndex targetId = some (reqs, n) ∧
      (reqs ≠ [] ∨ ∃ z, t.Walked (heavyMatch R) targetId z ∧ z ∈ R ∧ t.isSolidBlock z = false) := by
  have hsome : (heavySolidification t R fuel targetIndex targetId).isSome := by
    rw [heavySolidification, Option.isSome_map]
    exact Tangle.visitParentsDepthFirst_isSome targetId [] hfuel
  obtain ⟨⟨reqs, n⟩, hres⟩ := Option.isSome_iff_exists.mp hsome
  refine ⟨reqs, n, hres, ?_⟩
  rcases exists_request_or_pending hc hcomplete rank hrank targetId targetId (Tangle.Walked.root targetId)
      htarget with ⟨z, hz⟩ | hpending
  · left
    have hmem : z ∈ reqs.map Prod.fst := (mem_heavySolidification_requests hres z).mpr hz
    exact List.ne_nil_of_mem (List.mem_map.mp hmem).choose_spec.1
  · exact Or.inr hpending

end Heavy

/-- The block `3…3`, approving `2…2`, which is not stored: a milestone block waiting for its
parent. -/
def Tangle.waitingMilestone : Tangle :=
  (⟨∅, ∅, ∅, ∅⟩ : Tangle).insert ⟨2, .single (.replicate 32 2), none, 0⟩ (.replicate 32 3) .arrived

/-- A rank under which parents lie below children in `Tangle.waitingMilestone`. -/
def Tangle.waitingRank (b : BlockId) : Nat := if b = .replicate 32 3 then 1 else 0

theorem Tangle.waitingRank_approves :
    ∀ p c, Tangle.waitingMilestone.Approves p c → Tangle.waitingRank p < Tangle.waitingRank c := by
  rintro p c ⟨blk, hget, hp⟩
  rw [Tangle.waitingMilestone, Tangle.get_insert] at hget
  split at hget
  · rename_i hc
    subst hc
    rw [Option.some.injEq] at hget
    subst hget
    rw [List.mem_singleton.mp hp]
    decide
  · cases hget

theorem heavy_solidification_requests_parent :
    heavySolidification Tangle.waitingMilestone ∅ 3 1 (.replicate 32 3) = some ([(.replicate 32 2, 1)], 1) ∧
      ∀ y, y ∈ ([(.replicate 32 2, 1)] : List (BlockId × UInt32)).map Prod.fst ↔
        Tangle.waitingMilestone.Walked (heavyMatch ∅) (.replicate 32 3) y ∧
          Tangle.waitingMilestone.get y = none ∧ Tangle.waitingMilestone.isSolidEntryPoint y = false ∧
          y ∉ (∅ : Finset BlockId) := by
  have h : heavySolidification Tangle.waitingMilestone ∅ 3 1 (.replicate 32 3) =
      some ([(.replicate 32 2, 1)], 1) := by decide +kernel
  exact ⟨h, (heavySolidification_requests h).2.2⟩

theorem heavy_solidification_progress_waiting :
    Tangle.waitingMilestone.Consistent ∧ Tangle.waitingMilestone.SolidComplete ∧
      Tangle.waitingMilestone.parentCount + 1 < 3 ∧ Tangle.waitingMilestone.isSolidBlock (.replicate 32 3) = false ∧
      ∃ reqs n, heavySolidification Tangle.waitingMilestone ∅ 3 1 (.replicate 32 3) = some (reqs, n) ∧
        (reqs ≠ [] ∨ ∃ z, Tangle.waitingMilestone.Walked (heavyMatch ∅) (.replicate 32 3) z ∧
          z ∈ (∅ : Finset BlockId) ∧ Tangle.waitingMilestone.isSolidBlock z = false) := by
  have hc : Tangle.waitingMilestone.Consistent := by decide
  have hcomplete : Tangle.waitingMilestone.SolidComplete := (by decide : Tangle.waitingMilestone.Good).complete
  have hfuel : Tangle.waitingMilestone.parentCount + 1 < 3 := by decide
  have htarget : Tangle.waitingMilestone.isSolidBlock (.replicate 32 3) = false := by decide
  exact ⟨hc, hcomplete, hfuel, htarget, heavySolidification_progress hc hcomplete Tangle.waitingRank
    Tangle.waitingRank_approves hfuel 1 htarget⟩

/-! ### The milestone solidifier's event loop -/

/-- What the milestone solidifier sends: a request to the milestone requester, a request to
the block requester, and for a milestone found solid, the messages of `solidify`
(`ConfirmMilestone` of its block to the consensus worker, its index to the index updater and
the bus). -/
inductive SolidifierOutput
  | requestMilestone (index : UInt32)
  | requestBlock (blockId : BlockId) (index : UInt32)
  | solidified (blockId : BlockId) (index : UInt32)
  deriving DecidableEq

/-- The milestones a list of outputs makes solid, with their indexes. -/
def SolidifierOutput.solidifiedOf : List SolidifierOutput → List (BlockId × UInt32) :=
  List.filterMap fun
    | .solidified blockId index => some (blockId, index)
    | _ => none

/-- `request_milestone` with no peer named: a request, unless the index is requested already
or the tangle holds its milestone metadata. -/
def requestMilestone (requestedMilestones : Finset UInt32) (milestoneBlockIds : Map UInt32 BlockId)
    (index : UInt32) : List SolidifierOutput :=
  if !decide (index ∈ requestedMilestones) && !decide (index ∈ milestoneBlockIds) then
    [.requestMilestone index]
  else []

/-- The request loop `while next <= bound { request_milestone(next); next = next + 1 }`: the
requests and the final `next`; `none` where `next + 1` overflows. -/
def requestRange (requestedMilestones : Finset UInt32) (milestoneBlockIds : Map UInt32 BlockId)
    (bound next : UInt32) : Option (List SolidifierOutput × UInt32) :=
  if hle : next ≤ bound then
    match h : next.checkedAdd 1 with
    | none => none
    | some next' =>
      (requestRange requestedMilestones milestoneBlockIds bound next').map fun r =>
        (requestMilestone requestedMilestones milestoneBlockIds next ++ r.1, r.2)
  else some ([], next)
termination_by bound.toNat + 1 - next.toNat
decreasing_by
  have hnext := (UInt32.checkedAdd_eq_some_iff.mp h).2
  have hle' := UInt32.le_iff_toNat_le.mp hle
  simp only [UInt32.toNat_one] at hnext
  omega

/-- Light solidification of a milestone below `next`: requests for the parents of its
block. -/
def lightSolidification (t : Tangle) (milestoneBlockIds : Map UInt32 BlockId)
    (requestedBlocks : Finset BlockId) (index : UInt32) : List SolidifierOutput :=
  match milestoneBlockIds.lookup index with
  | some blockId =>
    match t.get blockId with
    | some block =>
      block.parents.toList.filterMap fun parent =>
        (requestBlock t requestedBlocks parent index).map fun r => .requestBlock r.1 r.2
    | none => []
  | none => []

/-- The loop `while target <= lmi`, with `smi` the solid milestone index so far: a present,
solid milestone is solidified and becomes the solid milestone index; an unsolid one is
heavily solidified and stops the loop, as does an absent one.  `none` where `target + 1`
overflows or the walk runs out of fuel. -/
def solidifyFrom (t : Tangle) (milestoneBlockIds : Map UInt32 BlockId) (requestedBlocks : Finset BlockId)
    (fuel : Nat) (lmi target smi : UInt32) : Option (UInt32 × List SolidifierOutput) :=
  if hle : target ≤ lmi then
    match milestoneBlockIds.lookup target with
    | some id =>
      if t.isSolidBlock id then
        match h : target.checkedAdd 1 with
        | none => none
        | some target' =>
          (solidifyFrom t milestoneBlockIds requestedBlocks fuel lmi target' target).map fun r =>
            (r.1, .solidified id target :: r.2)
      else
        (heavySolidification t requestedBlocks fuel target id).map fun r =>
          (smi, r.1.map fun q => .requestBlock q.1 q.2)
    | none => some (smi, [])
  else some (smi, [])
termination_by lmi.toNat + 1 - target.toNat
decreasing_by
  have hnext := (UInt32.checkedAdd_eq_some_iff.mp h).2
  have hle' := UInt32.le_iff_toNat_le.mp hle
  simp only [UInt32.toNat_one] at hnext
  omega

/-- The milestone solidifier's handling of an event for `index`, with `next` the next
milestone it requests and `lmi`, `smi` the tangle's latest and solid milestone indexes read
at the start: the new solid milestone index, the new `next`, and what it sends.  `none` where
an addition of indexes overflows or a walk runs out of fuel. -/
def handleSolidifierEvent (milestoneSyncCount : UInt32) (fuel : Nat) (t : Tangle)
    (milestoneBlockIds : Map UInt32 BlockId) (requestedBlocks : Finset BlockId)
    (requestedMilestones : Finset UInt32) (lmi smi next index : UInt32) :
    Option (UInt32 × UInt32 × List SolidifierOutput) := do
  let bound ← smi.checkedAdd milestoneSyncCount
  let (requests, next) ← requestRange requestedMilestones milestoneBlockIds (min bound lmi) next
  let light := if index < next then lightSolidification t milestoneBlockIds requestedBlocks index else []
  let target ← smi.checkedAdd 1
  let (smi, solid) ← solidifyFrom t milestoneBlockIds requestedBlocks fuel lmi target smi
  pure (smi, next, requests ++ light ++ solid)

section Solidifier

variable {t : Tangle} {ms : Map UInt32 BlockId} {R : Finset BlockId} {fuel : Nat}

@[simp] theorem SolidifierOutput.solidifiedOf_nil : SolidifierOutput.solidifiedOf [] = [] := rfl

@[simp] theorem SolidifierOutput.solidifiedOf_append (l₁ l₂ : List SolidifierOutput) :
    solidifiedOf (l₁ ++ l₂) = solidifiedOf l₁ ++ solidifiedOf l₂ :=
  List.filterMap_append

@[simp] theorem SolidifierOutput.solidifiedOf_solidified (blockId : BlockId) (index : UInt32)
    (out : List SolidifierOutput) :
    solidifiedOf (.solidified blockId index :: out) = (blockId, index) :: solidifiedOf out := rfl

/-- Requests make nothing solid. -/
theorem SolidifierOutput.solidifiedOf_eq_nil {out : List SolidifierOutput}
    (h : ∀ o ∈ out, ∀ blockId index, o ≠ .solidified blockId index) : solidifiedOf out = [] := by
  rw [solidifiedOf, List.filterMap_eq_nil_iff]
  intro o ho
  cases o with
  | solidified blockId index => exact absurd rfl (h _ ho blockId index)
  | _ => rfl

/-- What a pass that stops at once gives: the same index, and nothing confirmed. -/
theorem solidifyFrom_stop_spec {lmi smi : UInt32} {out : List SolidifierOutput}
    (hout : SolidifierOutput.solidifiedOf out = []) (hreq : ∀ j, SolidifierOutput.requestMilestone j ∉ out) :
    smi.toNat ≤ smi.toNat ∧ (smi.toNat < smi.toNat → smi.toNat ≤ lmi.toNat) ∧
      (SolidifierOutput.solidifiedOf out).map (·.2.toNat) = List.range' (smi.toNat + 1) (smi.toNat - smi.toNat) ∧
      (∀ p ∈ SolidifierOutput.solidifiedOf out, ms.lookup p.2 = some p.1 ∧ t.isSolidBlock p.1 = true) ∧
      ∀ j, SolidifierOutput.requestMilestone j ∉ out := by
  simp [hout, hreq]

/-- **One pass of the solidification loop.**  Started at the milestone after the solid
milestone index, it confirms the milestones from there to the new solid milestone index, in
order, each present and solid; the index only grows, and never past `lmi`; it requests no
milestone. -/
theorem solidifyFrom_spec {lmi target smi smi' : UInt32} {out : List SolidifierOutput}
    (h : solidifyFrom t ms R fuel lmi target smi = some (smi', out))
    (htarget : target.toNat = smi.toNat + 1) :
    smi.toNat ≤ smi'.toNat ∧ (smi.toNat < smi'.toNat → smi'.toNat ≤ lmi.toNat) ∧
      (SolidifierOutput.solidifiedOf out).map (·.2.toNat) =
        List.range' (smi.toNat + 1) (smi'.toNat - smi.toNat) ∧
      (∀ p ∈ SolidifierOutput.solidifiedOf out, ms.lookup p.2 = some p.1 ∧ t.isSolidBlock p.1 = true) ∧
      ∀ j, SolidifierOutput.requestMilestone j ∉ out := by
  fun_induction solidifyFrom t ms R fuel lmi target smi generalizing smi' out with
  | case1 => cases h
  | case2 target smi hle id hid hsolid target' htarget' ih =>
    -- a solid milestone: confirmed, and the loop goes on from the next index
    obtain ⟨⟨smi'', out'⟩, hrec, hres⟩ := Option.map_eq_some_iff.mp h
    simp only [Prod.mk.injEq] at hres
    obtain ⟨rfl, rfl⟩ := hres
    have hnext := (UInt32.checkedAdd_eq_some_iff.mp htarget').2
    have hle' := UInt32.le_iff_toNat_le.mp hle
    simp only [UInt32.toNat_one] at hnext
    obtain ⟨hmono, hbound, hrange, hsolid', hnoreq⟩ := ih hrec hnext
    refine ⟨by omega, fun _ => ?_, ?_, ?_, fun j hj => ?_⟩
    · by_cases hlt : target.toNat < smi''.toNat
      · exact hbound hlt
      · omega
    · have hlen : smi''.toNat - smi.toNat = (smi''.toNat - target.toNat) + 1 := by omega
      rw [SolidifierOutput.solidifiedOf_solidified, List.map_cons, hrange, hlen, ← htarget,
        List.range'_succ]
    · intro p hp
      rw [SolidifierOutput.solidifiedOf_solidified, List.mem_cons] at hp
      rcases hp with rfl | hp
      · exact ⟨hid, hsolid⟩
      · exact hsolid' p hp
    · rcases List.mem_cons.mp hj with hj | hj
      · cases hj
      · exact hnoreq j hj
  | case3 target smi hle id hid hunsolid =>
    -- an unsolid milestone: only block requests, and the loop stops
    obtain ⟨⟨reqs, n⟩, -, hres⟩ := Option.map_eq_some_iff.mp h
    simp only [Prod.mk.injEq] at hres
    obtain ⟨rfl, rfl⟩ := hres
    refine solidifyFrom_stop_spec (SolidifierOutput.solidifiedOf_eq_nil fun o ho blockId index => ?_)
      fun j hj => ?_
    · obtain ⟨q, -, rfl⟩ := List.mem_map.mp ho
      exact SolidifierOutput.noConfusion
    · obtain ⟨q, -, hq⟩ := List.mem_map.mp hj
      cases hq
  | case4 =>
    simp only [Option.some.injEq, Prod.mk.injEq] at h
    obtain ⟨rfl, rfl⟩ := h
    exact solidifyFrom_stop_spec rfl (by simp)
  | case5 =>
    simp only [Option.some.injEq, Prod.mk.injEq] at h
    obtain ⟨rfl, rfl⟩ := h
    exact solidifyFrom_stop_spec rfl (by simp)

/-- The request loop moves `next` just past `bound` when it starts at or below it, and
requests only indexes it moves over. -/
theorem requestRange_spec {reqM : Finset UInt32} {bound next next' : UInt32}
    {out : List SolidifierOutput} (h : requestRange reqM ms bound next = some (out, next')) :
    next'.toNat = max next.toNat (bound.toNat + 1) ∧
      ∀ o ∈ out, ∃ j, o = .requestMilestone j ∧ next.toNat ≤ j.toNat ∧ j.toNat < next'.toNat := by
  fun_induction requestRange reqM ms bound next generalizing out next' with
  | case1 => cases h
  | case2 next hle next'' hnext ih =>
    obtain ⟨⟨out', last⟩, hrec, hres⟩ := Option.map_eq_some_iff.mp h
    simp only [Prod.mk.injEq] at hres
    obtain ⟨rfl, rfl⟩ := hres
    have hsucc := (UInt32.checkedAdd_eq_some_iff.mp hnext).2
    simp only [UInt32.toNat_one] at hsucc
    have hle' := UInt32.le_iff_toNat_le.mp hle
    obtain ⟨hlast, hreqs⟩ := ih hrec
    refine ⟨by omega, fun o ho => ?_⟩
    rcases List.mem_append.mp ho with ho | ho
    · refine ⟨next, ?_, le_refl _, by omega⟩
      unfold requestMilestone at ho
      split at ho
      · exact List.mem_singleton.mp ho
      · cases ho
    · obtain ⟨j, rfl, hj₁, hj₂⟩ := hreqs o ho
      exact ⟨j, rfl, by omega, hj₂⟩
  | case3 next hlt =>
    simp only [Option.some.injEq, Prod.mk.injEq] at h
    obtain ⟨rfl, rfl⟩ := h
    have hlt' := UInt32.le_iff_toNat_le.not.mp hlt
    exact ⟨by omega, by simp⟩

/-- Light solidification sends block requests only. -/
theorem lightSolidification_requestBlock (index : UInt32) :
    ∀ o ∈ lightSolidification t ms R index, ∃ b, o = .requestBlock b index := by
  intro o ho
  unfold lightSolidification at ho
  split at ho
  · split at ho
    · obtain ⟨parent, -, hreq⟩ := List.mem_filterMap.mp ho
      obtain ⟨r, hr, rfl⟩ := Option.map_eq_some_iff.mp hreq
      exact ⟨r.1, by rw [(requestBlock_eq_some.mp hr).1]⟩
    · cases ho
  · cases ho

/-- **An event of the milestone solidifier.**  It confirms the milestones from the one after
the solid milestone index to the new solid milestone index, in order, each present and solid
when it is confirmed; the solid milestone index only grows, and stays at or below the latest
one; `next` only grows, and the milestones requested lie between the old and the new
`next`. -/
theorem handleSolidifierEvent_spec {milestoneSyncCount : UInt32} {reqM : Finset UInt32}
    {lmi smi next index smi' next' : UInt32} {out : List SolidifierOutput}
    (h : handleSolidifierEvent milestoneSyncCount fuel t ms R reqM lmi smi next index =
      some (smi', next', out)) :
    smi.toNat ≤ smi'.toNat ∧ (smi.toNat ≤ lmi.toNat → smi'.toNat ≤ lmi.toNat) ∧
      (SolidifierOutput.solidifiedOf out).map (·.2.toNat) =
        List.range' (smi.toNat + 1) (smi'.toNat - smi.toNat) ∧
      (∀ p ∈ SolidifierOutput.solidifiedOf out, ms.lookup p.2 = some p.1 ∧ t.isSolidBlock p.1 = true) ∧
      next.toNat ≤ next'.toNat ∧
      ∀ j, SolidifierOutput.requestMilestone j ∈ out → next.toNat ≤ j.toNat ∧ j.toNat < next'.toNat := by
  simp only [handleSolidifierEvent, Option.bind_eq_bind, Option.bind_eq_some_iff, Option.pure_def,
    Option.some.injEq] at h
  obtain ⟨bound, -, ⟨requests, next''⟩, hreq, target, htarget, ⟨smi'', solid⟩, hsolid, hres⟩ := h
  simp only [Prod.mk.injEq] at hres
  obtain ⟨rfl, rfl, rfl⟩ := hres
  have htarget' := (UInt32.checkedAdd_eq_some_iff.mp htarget).2
  simp only [UInt32.toNat_one] at htarget'
  obtain ⟨hmono, hbound, hrange, hsolid', hnoreq⟩ := solidifyFrom_spec hsolid htarget'
  obtain ⟨hnext, hreqs⟩ := requestRange_spec hreq
  -- what comes before the loop's outputs confirms nothing
  have hlight : ∀ o ∈ (if index < next'' then lightSolidification t ms R index else []),
      ∃ b, o = .requestBlock b index := by
    split
    · exact lightSolidification_requestBlock index
    · simp
  have hpre : SolidifierOutput.solidifiedOf
      (requests ++ if index < next'' then lightSolidification t ms R index else []) = [] := by
    refine SolidifierOutput.solidifiedOf_eq_nil fun o ho blockId i => ?_
    rcases List.mem_append.mp ho with ho | ho
    · obtain ⟨j, rfl, -⟩ := hreqs o ho
      exact SolidifierOutput.noConfusion
    · obtain ⟨b, rfl⟩ := hlight o ho
      exact SolidifierOutput.noConfusion
  simp only [SolidifierOutput.solidifiedOf_append] at hpre
  obtain ⟨hpre₁, hpre₂⟩ := List.append_eq_nil_iff.mp hpre
  refine ⟨hmono, fun hle => ?_, ?_, ?_, by omega, fun j hj => ?_⟩
  · by_cases hlt : smi.toNat < smi''.toNat
    · exact hbound hlt
    · omega
  · simp [hpre₁, hpre₂, hrange]
  · simpa [hpre₁, hpre₂] using hsolid'
  · rcases List.mem_append.mp hj with hj | hj
    · rcases List.mem_append.mp hj with hj | hj
      · obtain ⟨j', hj', hlo, hhi⟩ := hreqs _ hj
        cases hj'
        exact ⟨hlo, hhi⟩
      · obtain ⟨b, hb⟩ := hlight _ hj
        cases hb
    · exact absurd hj (hnoreq j)

end Solidifier

end Bee
