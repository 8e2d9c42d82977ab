import Bee.Tangle.Tangle
import Bee.Lib.Flow
import Bee.Ledger.PastCone

namespace Bee

/-!
# bee-protocol — solidity propagation

`propagate` walks the future cone of a new block with a stack.  It pops a block and skips
it when it is solid already, not stored, or has a parent that is not solid yet; otherwise it
marks it solid, lets it inherit the indexes of its parents unless it is a milestone, and
pushes its children.  A block skipped for a parent that is not solid yet is pushed again by
that parent when it becomes solid.

`Propagating` is the loop's invariant: the solid blocks have solid parents and indexes, every
block ready to be made solid is on the stack, and a block made solid lies in the future cone
of the new block and holds what its parents give it.  `Propagating.skip` and
`Propagating.mark` are the two ways a turn keeps it, `propagating_insert` starts it after
`Tangle::insert`, and `propagateLoop_spec` runs it: the loop ends, without a panic, once
the fuel exceeds the stack plus, for each block that is not solid, one more than the children
of any block.

A `Good` tangle need not give a block flagged as a milestone its indexes; `add_milestone`
sets them together with the flag, and `MilestonesIndexed` says so.  Without it, a milestone
block that is not solid yet is marked solid and keeps no indexes, and the tangle is no longer
`Good` (`propagate_milestone_and_ties`).  `IndexId`s compare by their index alone, so among
parents whose indexes tie the first `omrsi` and the last `ymrsi` are inherited, whatever
their block ids.
-/

/-- The update `propagate` makes: the block is marked solid and, unless it is a milestone,
inherits the indexes. -/
def BlockMetadata.solidify (omrsi ymrsi : IndexId) (md : BlockMetadata) : BlockMetadata :=
  if md.milestone then md.markSolid else md.markSolid.setOmrsiAndYmrsi omrsi ymrsi

@[simp] theorem BlockMetadata.solid_solidify (omrsi ymrsi : IndexId) (md : BlockMetadata) :
    (md.solidify omrsi ymrsi).solid = true := by
  unfold solidify
  split <;> rfl

@[simp] theorem BlockMetadata.milestone_solidify (omrsi ymrsi : IndexId) (md : BlockMetadata) :
    (md.solidify omrsi ymrsi).milestone = md.milestone := by
  unfold solidify
  split <;> rfl

theorem BlockMetadata.omrsiAndYmrsi_solidify (omrsi ymrsi : IndexId) (md : BlockMetadata) :
    (md.solidify omrsi ymrsi).omrsiAndYmrsi =
      if md.milestone then md.omrsiAndYmrsi else some (omrsi, ymrsi) := by
  unfold solidify
  split <;> rfl

namespace Tangle

/-- One turn of `propagate`'s loop on the popped `blockId`: the tangle after it and the
children it pushes, `none` where the code panics. -/
def propagateStep (t : Tangle) (blockId : BlockId) : Option (Tangle × List BlockId) :=
  if t.isSolidBlock blockId then some (t, [])
  else
    match t.get blockId with
    | none => some (t, [])
    | some block =>
      if block.parents.toList.all t.isSolidBlock then do
        -- an entry point's index and id, else the parent's indexes, unwrapped
        let parentIds ← block.parents.toList.mapM t.omrsiAndYmrsi
        let childOmrsi ← minIndexId (parentIds.map Prod.fst)
        let childYmrsi ← maxIndexId (parentIds.map Prod.snd)
        let t' ← t.updateMetadata blockId (BlockMetadata.solidify childOmrsi childYmrsi)
        pure (t', t'.getChildren blockId)
      else some (t, [])

/-- The loop of `propagate`, for at most `fuel` turns: `none` where it panics or the turns do
not suffice.  The top of the stack `children` is its last element. -/
def propagateLoop : Nat → Tangle → List BlockId → Option Tangle
  | 0, _, _ => none
  | fuel + 1, t, children =>
    match children.getLast? with
    | none => some t
    | some blockId =>
      (t.propagateStep blockId).bind fun r => propagateLoop fuel r.1 (children.dropLast ++ r.2)

/-- `propagate`: the loop from a stack that holds the block alone. -/
def propagate (fuel : Nat) (blockId : BlockId) (t : Tangle) : Option Tangle :=
  propagateLoop fuel t [blockId]

/-- The blocks with metadata not flagged solid: each turn that marks a block takes one away. -/
def unsolid (t : Tangle) : Finset BlockId :=
  t.blockIdToMetadata.keys.toFinset.filter fun b => t.solidFlag b = false

/-! ### One turn -/

section Step

variable {t : Tangle} {b : BlockId}

/-- A block that is not ready is popped, and nothing changes. -/
theorem propagateStep_of_not_ready (h : ¬ t.Ready b) : t.propagateStep b = some (t, []) := by
  unfold propagateStep
  split
  · rfl
  · rename_i hnsolid
    split
    · rfl
    · rename_i block hget
      rw [if_neg]
      intro hall
      exact h ⟨by simpa using hnsolid, block, hget, by simpa using hall⟩

/-- A ready block is marked solid, with the indexes it inherits, and its children are pushed:
no panic when the solid blocks have their indexes and the block has metadata. -/
theorem propagateStep_of_ready (hready : t.Ready b) (hindexed : t.SolidIndexed)
    (hmeta : b ∈ t.blockIdToMetadata) :
    ∃ block ids omrsi ymrsi t', t.get b = some block ∧
      block.parents.toList.mapM t.omrsiAndYmrsi = some ids ∧
      minIndexId (ids.map Prod.fst) = some omrsi ∧ maxIndexId (ids.map Prod.snd) = some ymrsi ∧
      t.updateMetadata b (BlockMetadata.solidify omrsi ymrsi) = some t' ∧
      t.propagateStep b = some (t', t.getChildren b) := by
  obtain ⟨hnsolid, block, hget, hpar⟩ := hready
  obtain ⟨ids, hids, hlen⟩ :=
    Flow.exists_mapM_eq_some fun p hp => hindexed.omrsiAndYmrsi_isSome (hpar p hp)
  -- a block has at least one parent, so there is an index to inherit
  have hne : ids ≠ [] := by
    intro hnil
    have hpos := block.parents.length_mem.1
    rw [← hlen, hnil, List.length_nil] at hpos
    omega
  have hfst : ids.map Prod.fst ≠ [] := by simpa using hne
  have hsnd : ids.map Prod.snd ≠ [] := by simpa using hne
  obtain ⟨omrsi, homrsi⟩ := Option.isSome_iff_exists.mp (minIndexId_isSome hfst)
  obtain ⟨ymrsi, hymrsi⟩ := Option.isSome_iff_exists.mp (maxIndexId_isSome hsnd)
  obtain ⟨t', hupd⟩ := Option.isSome_iff_exists.mp
    (updateMetadata_isSome (f := BlockMetadata.solidify omrsi ymrsi) hmeta)
  refine ⟨block, ids, omrsi, ymrsi, t', hget, hids, homrsi, hymrsi, hupd, ?_⟩
  have hall : block.parents.toList.all t.isSolidBlock = true := List.all_eq_true.mpr hpar
  rw [← getChildren_of_updateMetadata hupd]
  simp [propagateStep, hnsolid, hget, hall, hids, homrsi, hymrsi, hupd]

end Step

/-! ### What marking a block solid changes -/

section Mark

variable {t t' : Tangle} {b : BlockId} {omrsi ymrsi : IndexId}

/-- The parents' indexes read the same after an update of a block that is not among them. -/
theorem mapM_omrsiAndYmrsi_of_updateMetadata {f : BlockMetadata → BlockMetadata}
    (hupd : t.updateMetadata b f = some t') {l : List BlockId} (hl : b ∉ l) :
    l.mapM t'.omrsiAndYmrsi = l.mapM t.omrsiAndYmrsi :=
  Flow.mapM_congr fun _ hp => omrsiAndYmrsi_of_updateMetadata_ne hupd fun h => hl (h ▸ hp)

/-- What its parents give a block stays so while none of them is updated. -/
theorem Inherits.of_updateMetadata {f : BlockMetadata → BlockMetadata} {c : BlockId}
    {md : BlockMetadata} (h : t.Inherits c md) (hupd : t.updateMetadata b f = some t')
    (hb : ∀ block, t.get c = some block → b ∉ block.parents.toList) : t'.Inherits c md := by
  obtain ⟨block, ids, omrsi, ymrsi, hget, hids, hmd, hmin, hmax⟩ := h
  refine ⟨block, ids, omrsi, ymrsi, ?_, ?_, hmd, hmin, hmax⟩
  · rw [get_of_updateMetadata hupd]
    exact hget
  · rw [mapM_omrsiAndYmrsi_of_updateMetadata hupd (hb block hget)]
    exact hids

variable (hupd : t.updateMetadata b (BlockMetadata.solidify omrsi ymrsi) = some t')
include hupd

theorem solidFlag_of_solidify (c : BlockId) :
    t'.solidFlag c = true ↔ c = b ∨ t.solidFlag c = true := by
  by_cases hc : c = b
  · subst hc
    obtain ⟨md, -, hmd'⟩ := getMetadata_of_updateMetadata_self hupd
    simp [solidFlag, hmd']
  · simp [solidFlag, getMetadata_of_updateMetadata_ne hupd hc, hc]

theorem isSolidBlock_of_solidify (c : BlockId) :
    t'.isSolidBlock c = true ↔ c = b ∨ t.isSolidBlock c = true := by
  simp only [isSolidBlock, Bool.or_eq_true, isSolidEntryPoint_of_updateMetadata hupd,
    solidFlag_of_solidify hupd]
  tauto

/-- The marked block has solid parents, and no other flag changes. -/
theorem SolidClosed.solidify (h : t.SolidClosed) {block : Block} (hget : t.get b = some block)
    (hpar : ∀ p ∈ block.parents.toList, t.isSolidBlock p = true) : t'.SolidClosed := by
  intro c md blk hmd hs hgetc p hp
  rw [get_of_updateMetadata hupd] at hgetc
  have hsolid : t.isSolidBlock p = true := by
    by_cases hc : c = b
    · subst hc
      rw [hget, Option.some.injEq] at hgetc
      subst hgetc
      exact hpar p hp
    · rw [getMetadata_of_updateMetadata_ne hupd hc] at hmd
      exact h c md blk hmd hs hgetc p hp
  exact (isSolidBlock_of_solidify hupd p).mpr (.inr hsolid)

/-- The marked block has indexes: set now, or set with its milestone flag. -/
theorem SolidIndexed.solidify (h : t.SolidIndexed) (hms : t.MilestonesIndexed) : t'.SolidIndexed := by
  intro c md hmd hs hsep
  rw [isSolidEntryPoint_of_updateMetadata hupd] at hsep
  by_cases hc : c = b
  · subst hc
    obtain ⟨md₀, hmd₀, hmd'⟩ := getMetadata_of_updateMetadata_self hupd
    rw [hmd', Option.some.injEq] at hmd
    subst hmd
    rw [BlockMetadata.omrsiAndYmrsi_solidify]
    split
    · exact hms c md₀ hmd₀ ‹_›
    · rfl
  · rw [getMetadata_of_updateMetadata_ne hupd hc] at hmd
    exact h c md hmd hs hsep

theorem MilestonesIndexed.solidify (hms : t.MilestonesIndexed) : t'.MilestonesIndexed := by
  intro c md hmd hm
  by_cases hc : c = b
  · subst hc
    obtain ⟨md₀, hmd₀, hmd'⟩ := getMetadata_of_updateMetadata_self hupd
    rw [hmd', Option.some.injEq] at hmd
    subst hmd
    rw [BlockMetadata.milestone_solidify] at hm
    rw [BlockMetadata.omrsiAndYmrsi_solidify, if_pos hm]
    exact hms c md₀ hmd₀ hm
  · rw [getMetadata_of_updateMetadata_ne hupd hc] at hmd
    exact hms c md hmd hm

/-- A marked block that is not a milestone holds the indexes its parents give it. -/
theorem inherits_solidify {block : Block} {ids : List (IndexId × IndexId)}
    (hget : t.get b = some block) (hb : b ∉ block.parents.toList)
    (hids : block.parents.toList.mapM t.omrsiAndYmrsi = some ids)
    (hmin : minIndexId (ids.map Prod.fst) = some omrsi)
    (hmax : maxIndexId (ids.map Prod.snd) = some ymrsi)
    {md : BlockMetadata} (hmd : t'.getMetadata b = some md) (hms : md.milestone = false) :
    t'.Inherits b md := by
  obtain ⟨md₀, -, hmd'⟩ := getMetadata_of_updateMetadata_self hupd
  rw [hmd', Option.some.injEq] at hmd
  subst hmd
  rw [BlockMetadata.milestone_solidify] at hms
  refine ⟨block, ids, omrsi, ymrsi, ?_, ?_, ?_, ?_, ?_⟩
  · rw [get_of_updateMetadata hupd]
    exact hget
  · rw [mapM_omrsiAndYmrsi_of_updateMetadata hupd hb]
    exact hids
  · rw [BlockMetadata.omrsiAndYmrsi_solidify, if_neg (by simp [hms])]
  · rw [← minIndexId_eq_argmin]
    exact hmin
  · rw [← maxIndexId_eq_argmax]
    exact hmax

/-- A block ready once `b` is marked is not `b`, and was ready before or waited for `b`: then
it is one of `b`'s children. -/
theorem ready_of_solidify (hcons : t.Consistent) {c : BlockId} (hc : t'.Ready c) :
    c ≠ b ∧ (t.Ready c ∨ c ∈ t.getChildren b) := by
  obtain ⟨hc, blk, hgetc, hparc⟩ := hc
  rw [get_of_updateMetadata hupd] at hgetc
  have hcb : c ≠ b := by
    rintro rfl
    rw [(isSolidBlock_of_solidify hupd c).mpr (.inl rfl)] at hc
    cases hc
  have hc₀ : t.isSolidBlock c = false := by
    rw [← Bool.not_eq_true] at hc ⊢
    exact fun h' => hc ((isSolidBlock_of_solidify hupd c).mpr (.inr h'))
  refine ⟨hcb, ?_⟩
  by_cases hall : ∀ p ∈ blk.parents.toList, t.isSolidBlock p = true
  · exact .inl ⟨hc₀, blk, hgetc, hall⟩
  · -- the parent that was not solid before is `b`
    push Not at hall
    obtain ⟨p, hp, hpns⟩ := hall
    have hpb : p = b := by
      rcases (isSolidBlock_of_solidify hupd p).mp (hparc p hp) with hpb | hps
      · exact hpb
      · rw [hps] at hpns
        exact absurd rfl hpns
    subst hpb
    exact .inr ((hcons.children_iff p c).mpr ⟨blk, hgetc, hp⟩)

/-- Marking a block that was not flagged solid takes it out of `unsolid`. -/
theorem unsolid_solidify (hb : t.solidFlag b = false) : t'.unsolid ⊂ t.unsolid := by
  obtain ⟨md₀, hmd₀, -, -, -, hmeta⟩ := updateMetadata_eq_some hupd
  have hbt' : t'.solidFlag b = true := (solidFlag_of_solidify hupd b).mpr (.inl rfl)
  refine Finset.ssubset_iff_of_subset ?_ |>.mpr ⟨b, ?_, ?_⟩
  · intro c hc
    simp only [unsolid, Finset.mem_filter, List.mem_toFinset] at hc ⊢
    obtain ⟨hkey, hflag⟩ := hc
    have hcb : c ≠ b := by
      rintro rfl
      rw [hbt'] at hflag
      cases hflag
    refine ⟨?_, ?_⟩
    · rw [hmeta, ← AList.mem_keys, AList.mem_insert, AList.mem_keys] at hkey
      exact hkey.resolve_left hcb
    · rw [← Bool.not_eq_true] at hflag ⊢
      exact fun htc => hflag ((solidFlag_of_solidify hupd c).mpr (.inr htc))
  · simp only [unsolid, Finset.mem_filter, List.mem_toFinset]
    exact ⟨mem_keys_of_lookup hmd₀, hb⟩
  · simp [unsolid, hbt']

end Mark

/-! ### The loop's invariant -/

/-- What holds at each turn of the loop started on the tangle `t₀` with the new block `x`: the
blocks and children of `t₀` are kept; the solid blocks have solid parents and indexes, and so
do the milestones; every ready block is on the stack; a block flagged solid since `t₀` lies in
the future cone of `x`, as does the stack, and holds the indexes its parents give it; a block
flagged solid in `t₀` keeps its metadata. -/
structure Propagating (t₀ : Tangle) (x : BlockId) (t : Tangle) (children : List BlockId) : Prop where
  get_eq : t.get = t₀.get
  getChildren_eq : t.getChildren = t₀.getChildren
  consistent : t.Consistent
  closed : t.SolidClosed
  indexed : t.SolidIndexed
  milestones : t.MilestonesIndexed
  pending : ∀ b, t.Ready b → b ∈ children
  cone : ∀ b, t.solidFlag b = true → t₀.solidFlag b = true ∨ Relation.ReflTransGen t₀.Approves x b
  children_cone : ∀ b ∈ children, Relation.ReflTransGen t₀.Approves x b
  getMetadata_eq : ∀ b, t₀.solidFlag b = true → t.getMetadata b = t₀.getMetadata b
  inherits : ∀ b md, t.getMetadata b = some md → md.solid = true → t₀.solidFlag b = false →
    md.milestone = false → t.Inherits b md

section Invariant

variable {t₀ t t' : Tangle} {x b : BlockId} {rest : List BlockId}

/-- A block that is not ready is popped, and the invariant holds of the rest of the stack. -/
theorem Propagating.skip (h : Propagating t₀ x t (rest ++ [b])) (hb : ¬ t.Ready b) :
    Propagating t₀ x t rest :=
  { h with
    pending := fun c hc => by
      rcases List.mem_append.mp (h.pending c hc) with hc' | hc'
      · exact hc'
      · rw [List.mem_singleton.mp hc'] at hc
        exact absurd hc hb
    children_cone := fun c hc => h.children_cone c (List.mem_append_left _ hc) }

/-- A ready block is marked solid with the indexes it inherits, and its children are pushed. -/
theorem Propagating.mark (h : Propagating t₀ x t (rest ++ [b])) (hready : t.Ready b)
    {block : Block} {ids : List (IndexId × IndexId)} {omrsi ymrsi : IndexId}
    (hget : t.get b = some block) (hids : block.parents.toList.mapM t.omrsiAndYmrsi = some ids)
    (hmin : minIndexId (ids.map Prod.fst) = some omrsi)
    (hmax : maxIndexId (ids.map Prod.snd) = some ymrsi)
    (hupd : t.updateMetadata b (BlockMetadata.solidify omrsi ymrsi) = some t') :
    Propagating t₀ x t' (rest ++ t.getChildren b) := by
  obtain ⟨hnsolid, block', hget', hpar⟩ := hready
  rw [hget, Option.some.injEq] at hget'
  subst hget'
  have hnflag : t.solidFlag b = false := (isSolidBlock_eq_false.mp hnsolid).2
  -- `b` is not solid, so it is a parent of no block flagged solid, its own parents included
  have hnparent : ∀ c md blk, t.getMetadata c = some md → md.solid = true → t.get c = some blk →
      b ∉ blk.parents.toList := fun c md blk hmd hs hgetc hb =>
    absurd (h.closed c md blk hmd hs hgetc b hb) (by rw [hnsolid]; exact Bool.false_ne_true)
  have hnself : b ∉ block.parents.toList := fun hb => absurd (hpar b hb) (by rw [hnsolid]; exact Bool.false_ne_true)
  refine ⟨?_, ?_, h.consistent.updateMetadata hupd, h.closed.solidify hupd hget hpar,
    h.indexed.solidify hupd h.milestones, h.milestones.solidify hupd, ?_, ?_, ?_, ?_, ?_⟩
  · rw [get_of_updateMetadata hupd, h.get_eq]
  · rw [getChildren_of_updateMetadata hupd, h.getChildren_eq]
  · intro c hc
    obtain ⟨hcb, hready | hchild⟩ := ready_of_solidify hupd h.consistent hc
    · rcases List.mem_append.mp (h.pending c hready) with hc' | hc'
      · exact List.mem_append_left _ hc'
      · exact absurd (List.mem_singleton.mp hc') hcb
    · exact List.mem_append_right _ hchild
  · intro c hc
    rcases (solidFlag_of_solidify hupd c).mp hc with rfl | hc'
    · exact .inr (h.children_cone c (List.mem_append_right _ (List.mem_singleton_self c)))
    · exact h.cone c hc'
  · intro c hc
    rcases List.mem_append.mp hc with hc' | hc'
    · exact h.children_cone c (List.mem_append_left _ hc')
    · -- a pushed child approves `b`, which is in the future cone
      have happ : t.Approves b c := (h.consistent.children_iff b c).mp hc'
      obtain ⟨blk, hgetc, hb⟩ := happ
      rw [h.get_eq] at hgetc
      exact (h.children_cone b (List.mem_append_right _ (List.mem_singleton_self b))).tail
        ⟨blk, hgetc, hb⟩
  · intro c hc
    have hcb : c ≠ b := by
      rintro rfl
      rw [solidFlag, h.getMetadata_eq c hc, ← solidFlag, hc] at hnflag
      cases hnflag
    rw [getMetadata_of_updateMetadata_ne hupd hcb, h.getMetadata_eq c hc]
  · intro c md hmd hs h₀ hms
    by_cases hcb : c = b
    · subst hcb
      exact inherits_solidify hupd hget hnself hids hmin hmax hmd hms
    · rw [getMetadata_of_updateMetadata_ne hupd hcb] at hmd
      exact (h.inherits c md hmd hs h₀ hms).of_updateMetadata hupd
        fun blk hgetc => hnparent c md blk hmd hs hgetc

/-- With an empty stack the invariant says that the tangle is good. -/
theorem Propagating.good (h : Propagating t₀ x t []) : t.Good :=
  ⟨h.closed, solidComplete_iff.mpr fun b hb => List.not_mem_nil (h.pending b hb), h.indexed⟩

/-- `Tangle::insert` of a new block with `BlockMetadata::arrived` starts the loop: on a
consistent, good tangle whose milestones have indexes, only the new block may be ready. -/
theorem propagating_insert {t : Tangle} {block : Block} (hcons : t.Consistent) (hgood : t.Good)
    (hms : t.MilestonesIndexed) (hx : x ∉ t.blockIdToBlock) :
    Propagating (t.insert block x .arrived) x (t.insert block x .arrived) [x] := by
  have hxm : x ∉ t.blockIdToMetadata := fun h => hx ((hcons.metadata_iff x).mp h)
  have hsolid : ∀ p, (t.insert block x .arrived).isSolidBlock p = t.isSolidBlock p :=
    isSolidBlock_insert hxm rfl
  -- the new metadata carries no flag, so a flagged block is an old one
  have hold : ∀ b md, (t.insert block x .arrived).getMetadata b = some md →
      (md.solid = true ∨ md.milestone = true) → b ≠ x ∧ t.getMetadata b = some md := by
    intro b md hmd hflag
    rw [getMetadata_insert hxm] at hmd
    by_cases hbx : b = x
    · rw [if_pos hbx, Option.some.injEq] at hmd
      subst hmd
      simp [BlockMetadata.arrived] at hflag
    · rw [if_neg hbx] at hmd
      exact ⟨hbx, hmd⟩
  refine ⟨rfl, rfl, hcons.insert hx, ?_, ?_, ?_, ?_, fun b hb => .inl hb, ?_, fun _ _ => rfl, ?_⟩
  · intro b md blk hmd hs hget p hp
    obtain ⟨hbx, hmd'⟩ := hold b md hmd (.inl hs)
    rw [get_insert, if_neg hbx] at hget
    rw [hsolid]
    exact hgood.closed b md blk hmd' hs hget p hp
  · intro b md hmd hs hsep
    obtain ⟨-, hmd'⟩ := hold b md hmd (.inl hs)
    rw [isSolidEntryPoint_insert] at hsep
    exact hgood.indexed b md hmd' hs hsep
  · intro b md hmd hm
    obtain ⟨-, hmd'⟩ := hold b md hmd (.inr hm)
    exact hms b md hmd' hm
  · intro c hc
    by_cases hcx : c = x
    · rw [hcx]
      exact List.mem_singleton_self x
    · -- any other ready block would be ready before, against `SolidComplete`
      exact absurd ((ready_insert hxm rfl hcx).mp hc) (solidComplete_iff.mp hgood.complete c)
  · intro c hc
    rw [List.mem_singleton.mp hc]
  · intro b md hmd hs h₀
    rw [solidFlag_of_getMetadata hmd, hs] at h₀
    cases h₀

end Invariant

/-! ### The whole loop -/

/-- A run that ends gives the same tangle with more fuel. -/
theorem propagateLoop_succ {fuel : Nat} {t r : Tangle} {children : List BlockId}
    (h : propagateLoop fuel t children = some r) : propagateLoop (fuel + 1) t children = some r := by
  induction fuel generalizing t children with
  | zero => cases h
  | succ fuel ih =>
    unfold propagateLoop at h ⊢
    cases hlast : children.getLast? with
    | none =>
      rw [hlast] at h
      exact h
    | some b =>
      rw [hlast] at h
      obtain ⟨r', hstep, hrun⟩ := Option.bind_eq_some_iff.mp h
      exact Option.bind_eq_some_iff.mpr ⟨r', hstep, ih hrun⟩

/-- Two runs that end give the same tangle, whatever their fuel. -/
theorem propagateLoop_eq_of_eq_some {n₁ n₂ : Nat} {t r₁ r₂ : Tangle} {children : List BlockId}
    (h₁ : propagateLoop n₁ t children = some r₁) (h₂ : propagateLoop n₂ t children = some r₂) :
    r₁ = r₂ := by
  have hmono : ∀ {n r} k, propagateLoop n t children = some r → propagateLoop (n + k) t children = some r := by
    intro n r k h
    induction k with
    | zero => exact h
    | succ k ih => exact propagateLoop_succ ih
  have e₁ := hmono n₂ h₁
  have e₂ := hmono n₁ h₂
  rw [Nat.add_comm] at e₂
  rw [e₁] at e₂
  exact Option.some.inj e₂

/-- With fuel beyond the stack plus, for each block not flagged solid, one more than the
children of any block, the loop ends without a panic, with nothing left to do. -/
theorem propagateLoop_spec {t₀ : Tangle} {x : BlockId} {E : Nat}
    (hE : ∀ b, (t₀.getChildren b).length ≤ E) :
    ∀ fuel t children, Propagating t₀ x t children →
      children.length + t.unsolid.card * (E + 1) < fuel →
      ∃ t', propagateLoop fuel t children = some t' ∧ Propagating t₀ x t' [] := by
  intro fuel
  -- induction on the fuel; each turn lowers the bound by one at least
  induction fuel with
  | zero =>
    intro t children _ hlt
    omega
  | succ fuel ih =>
    intro t children h hlt
    cases hlast : children.getLast? with
    | none =>
      rw [List.getLast?_eq_none_iff] at hlast
      subst hlast
      exact ⟨t, rfl, h⟩
    | some b =>
      obtain ⟨rest, rfl⟩ := List.getLast?_eq_some_iff.mp hlast
      have hdrop : (rest ++ [b]).dropLast = rest := List.dropLast_concat
      rw [List.length_append, List.length_singleton] at hlt
      by_cases hready : t.Ready b
      · have hmeta : b ∈ t.blockIdToMetadata := by
          obtain ⟨-, blk, hget, -⟩ := hready
          exact (h.consistent.metadata_iff b).mpr (AssocMap.mem_of_lookup_eq_some hget)
        obtain ⟨block, ids, omrsi, ymrsi, t', hget, hids, hmin, hmax, hupd, hstep⟩ :=
          propagateStep_of_ready hready h.indexed hmeta
        -- one block fewer to mark pays for the children pushed
        have hcard : t'.unsolid.card < t.unsolid.card :=
          Finset.card_lt_card (unsolid_solidify hupd (isSolidBlock_eq_false.mp hready.1).2)
        have hpushed : (t.getChildren b).length ≤ E := by
          rw [h.getChildren_eq]
          exact hE b
        have hmul : (t'.unsolid.card + 1) * (E + 1) ≤ t.unsolid.card * (E + 1) :=
          Nat.mul_le_mul_right _ hcard
        rw [Nat.add_mul, Nat.one_mul] at hmul
        obtain ⟨t'', hrun, hfin⟩ := ih t' (rest ++ t.getChildren b)
          (h.mark hready hget hids hmin hmax hupd) (by rw [List.length_append]; omega)
        refine ⟨t'', ?_, hfin⟩
        simp only [propagateLoop, hlast, hstep, Option.bind_some, hdrop]
        exact hrun
      · obtain ⟨t'', hrun, hfin⟩ := ih t rest (h.skip hready) (by omega)
        refine ⟨t'', ?_, hfin⟩
        simp only [propagateLoop, hlast, propagateStep_of_not_ready hready, Option.bind_some, hdrop,
          List.append_nil]
        exact hrun

end Tangle

/-! ### Propagation after an insert -/

/-- On a consistent, good tangle whose milestones have indexes, inserting a new block with
`BlockMetadata::arrived` and propagating from it ends, with enough fuel and without a panic, in a
consistent, good tangle whose milestones have indexes.  It flags solid only the new block and
blocks of its future cone, keeps the metadata of the blocks solid before, and gives every newly
solid block that is not a milestone the indexes its parents give it. -/
theorem propagate_keeps_solid_set_exact (t : Tangle) (block : Block) (x : BlockId)
    (hcons : t.Consistent) (hgood : t.Good) (hms : t.MilestonesIndexed)
    (hx : x ∉ t.blockIdToBlock) :
    ∃ n, ∀ fuel, n ≤ fuel → ∃ t', (t.insert block x .arrived).propagate fuel x = some t' ∧
      t'.Consistent ∧ t'.Good ∧ t'.MilestonesIndexed ∧
      (∀ b, t'.solidFlag b = true → t.solidFlag b = true ∨ Relation.ReflTransGen t'.Approves x b) ∧
      (∀ b, t.solidFlag b = true → t'.getMetadata b = t.getMetadata b) ∧
      ∀ b md, t'.getMetadata b = some md → md.solid = true → t.solidFlag b = false →
        md.milestone = false → t'.Inherits b md := by
  have hxm : x ∉ t.blockIdToMetadata := fun h => hx ((hcons.metadata_iff x).mp h)
  have hflag : ∀ b, (t.insert block x .arrived).solidFlag b = t.solidFlag b :=
    Tangle.solidFlag_insert hxm rfl
  -- the fuel: the stack `[x]`, and one more than all the children for each block to mark
  let E := AssocMap.sumEntries (fun _ vs => vs.length) (t.insert block x .arrived).blockIdToBlockId
  refine ⟨[x].length + (t.insert block x .arrived).unsolid.card * (E + 1) + 1, fun fuel hfuel => ?_⟩
  have hinit : Tangle.Propagating (t.insert block x .arrived) x (t.insert block x .arrived) [x] :=
    Tangle.propagating_insert hcons hgood hms hx
  have hE : ∀ b, ((t.insert block x .arrived).getChildren b).length ≤ E :=
    fun b => VecTable.length_fetch_le _ b
  obtain ⟨t', hrun, h⟩ := Tangle.propagateLoop_spec hE fuel _ [x] hinit (by omega)
  have happroves : t'.Approves = (t.insert block x .arrived).Approves := by
    funext p c
    simp only [Tangle.Approves, h.get_eq]
  refine ⟨t', hrun, h.consistent, h.good, h.milestones, ?_, ?_, ?_⟩
  · intro b hb
    rw [happroves, ← hflag b]
    exact h.cone b hb
  · intro b hb
    -- a block flagged solid before has metadata, so it is not the new block
    have hbx : b ≠ x := by
      rintro rfl
      obtain ⟨md, hmd, -⟩ := Tangle.solidFlag_eq_true.mp hb
      exact hxm (AssocMap.mem_of_lookup_eq_some hmd)
    rw [h.getMetadata_eq b (by rw [hflag]; exact hb), Tangle.getMetadata_insert hxm, if_neg hbx]
  · intro b md hmd hs h₀ hms'
    exact h.inherits b md hmd hs (by rw [hflag]; exact h₀) hms'

/-- A tangle holding nothing but the solid entry point `1…1`, of milestone index `index`. -/
def Tangle.entryPointOnly (index : UInt32) : Tangle :=
  ⟨∅, ∅, ∅, (∅ : AssocMap.Map BlockId UInt32).insert (.replicate 32 1) index⟩

/-- A block approving `1…1` alone. -/
def entryPointChild : Block := ⟨2, .single (.replicate 32 1), none, 0⟩

/-- A block approving the only entry point is made solid, on a tangle that meets the
hypotheses. -/
theorem propagate_entry_point_child :
    (Tangle.entryPointOnly 0).Consistent ∧ (Tangle.entryPointOnly 0).Good ∧
      (Tangle.entryPointOnly 0).MilestonesIndexed ∧
      (.replicate 32 2 : BlockId) ∉ (Tangle.entryPointOnly 0).blockIdToBlock ∧
      ∃ n, ∀ fuel, n ≤ fuel → ∃ t',
        ((Tangle.entryPointOnly 0).insert entryPointChild (.replicate 32 2) .arrived).propagate fuel
          (.replicate 32 2) = some t' ∧
        t'.Consistent ∧ t'.Good ∧ t'.MilestonesIndexed ∧
        (∀ b, t'.solidFlag b = true →
          (Tangle.entryPointOnly 0).solidFlag b = true ∨ Relation.ReflTransGen t'.Approves (.replicate 32 2) b) ∧
        (∀ b, (Tangle.entryPointOnly 0).solidFlag b = true →
          t'.getMetadata b = (Tangle.entryPointOnly 0).getMetadata b) ∧
        ∀ b md, t'.getMetadata b = some md → md.solid = true → (Tangle.entryPointOnly 0).solidFlag b = false →
          md.milestone = false → t'.Inherits b md :=
  ⟨by decide, by decide, by decide, by decide,
    propagate_keeps_solid_set_exact (Tangle.entryPointOnly 0) entryPointChild (.replicate 32 2)
      (by decide) (by decide) (by decide) (by decide)⟩

/-- The parents `[a, b]`, `a` before `b`. -/
def Parents.pair (a b : BlockId) (h : a < b) : Parents :=
  ⟨[a, b], ⟨by simp, by simp⟩, List.pairwise_pair.mpr h⟩

theorem replicate_three_lt_four : (Bytes.replicate 32 3 : BlockId) < .replicate 32 4 := by decide

/-- `3…3`, flagged as a milestone without indexes, approves `2…2`, which is not stored yet:
a `Good` tangle that is not `MilestonesIndexed`. -/
def Tangle.milestoneWithoutIndexes : Tangle :=
  (Tangle.entryPointOnly 0).insert ⟨2, .single (.replicate 32 2), none, 0⟩ (.replicate 32 3)
    ⟨false, true, none⟩

/-- The solid blocks `3…3` and `4…4` approve the solid entry points `2…2` and `1…1`, both of
index 5, and hold the indexes these give them. -/
def Tangle.tiedIndexes : Tangle :=
  ((⟨∅, ∅, ∅, ((∅ : AssocMap.Map BlockId UInt32).insert (.replicate 32 1) 5).insert
      (.replicate 32 2) 5⟩ : Tangle).insert
    ⟨2, .single (.replicate 32 2), none, 0⟩ (.replicate 32 3)
      ⟨true, false, some (⟨5, .replicate 32 2⟩, ⟨5, .replicate 32 2⟩)⟩).insert
    ⟨2, .single (.replicate 32 1), none, 0⟩ (.replicate 32 4)
      ⟨true, false, some (⟨5, .replicate 32 1⟩, ⟨5, .replicate 32 1⟩)⟩

/-- A block approving `3…3` and `4…4`. -/
def tiedChild : Block := ⟨2, .pair (.replicate 32 3) (.replicate 32 4) replicate_three_lt_four, none, 0⟩

/-- A milestone block without indexes ends solid without them, in a tangle that is not good;
and of two parents whose indexes tie at 5, the new block inherits the `omrsi` of the first and
the `ymrsi` of the second, though `1…1` is the smaller id. -/
theorem propagate_milestone_and_ties :
    ((Tangle.milestoneWithoutIndexes.Consistent ∧ Tangle.milestoneWithoutIndexes.Good ∧
      (.replicate 32 2 : BlockId) ∉ Tangle.milestoneWithoutIndexes.blockIdToBlock) ∧
      ∀ fuel t', (Tangle.milestoneWithoutIndexes.insert entryPointChild (.replicate 32 2)
        .arrived).propagate fuel (.replicate 32 2) = some t' → ¬ t'.Good) ∧
    ((Tangle.tiedIndexes.Consistent ∧ Tangle.tiedIndexes.Good ∧
      (.replicate 32 5 : BlockId) ∉ Tangle.tiedIndexes.blockIdToBlock) ∧
      Tangle.tiedIndexes.omrsiAndYmrsi (.replicate 32 3) =
        some (⟨5, .replicate 32 2⟩, ⟨5, .replicate 32 2⟩) ∧
      Tangle.tiedIndexes.omrsiAndYmrsi (.replicate 32 4) =
        some (⟨5, .replicate 32 1⟩, ⟨5, .replicate 32 1⟩) ∧
      (Bytes.replicate 32 1 : BlockId) < .replicate 32 2 ∧
      ∀ fuel t', (Tangle.tiedIndexes.insert tiedChild (.replicate 32 5) .arrived).propagate fuel
        (.replicate 32 5) = some t' →
        (t'.getMetadata (.replicate 32 5)).bind (·.omrsiAndYmrsi) =
          some (⟨5, .replicate 32 2⟩, ⟨5, .replicate 32 1⟩)) := by
  -- each run ends after a few turns, and ends the same with any fuel that lets it end
  have hmilestone : ∀ t' ∈ (Tangle.milestoneWithoutIndexes.insert entryPointChild (.replicate 32 2)
      .arrived).propagate 8 (.replicate 32 2), ¬ t'.Good := by decide
  have htied : ∀ t' ∈ (Tangle.tiedIndexes.insert tiedChild (.replicate 32 5) .arrived).propagate 8
      (.replicate 32 5), (t'.getMetadata (.replicate 32 5)).bind (·.omrsiAndYmrsi) =
        some (⟨5, .replicate 32 2⟩, ⟨5, .replicate 32 1⟩) := by decide
  have hends₁ : ((Tangle.milestoneWithoutIndexes.insert entryPointChild (.replicate 32 2)
      .arrived).propagate 8 (.replicate 32 2)).isSome := by decide
  have hends₂ : ((Tangle.tiedIndexes.insert tiedChild (.replicate 32 5) .arrived).propagate 8
      (.replicate 32 5)).isSome := by decide
  obtain ⟨r₁, hr₁⟩ := Option.isSome_iff_exists.mp hends₁
  obtain ⟨r₂, hr₂⟩ := Option.isSome_iff_exists.mp hends₂
  refine ⟨⟨by decide, fun fuel t' h => ?_⟩, ⟨by decide, by decide, by decide, by decide, fun fuel t' h => ?_⟩⟩
  · rw [Tangle.propagateLoop_eq_of_eq_some h hr₁]
    exact hmilestone r₁ hr₁
  · rw [Tangle.propagateLoop_eq_of_eq_some h hr₂]
    exact htied r₂ hr₂

end Bee
