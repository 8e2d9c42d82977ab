import Bee.Storage.Memory

namespace Bee

open AssocMap

/-!
# bee-tangle — blocks, their metadata and their children

The `Tangle` keeps three tables of the storage (the block of an id, its metadata, and
the children of each parent, a `VecTable` of `(parent, child)` edges) and the solid entry
points with their milestone indexes.  Of the metadata only what solidification reads and
writes is modelled: the solid and milestone flags and the oldest and youngest milestone
root snapshot indexes (`omrsi`, `ymrsi`), each an `IndexId`.

An `IndexId` is ordered by its milestone index alone, so `Iterator::min` over them returns
the first of those with the least index and `Iterator::max` the last of those with the
greatest: Mathlib's `List.argmin`, and `List.argmax` over the reversed list
(`minIndexId_eq_argmin`, `maxIndexId_eq_argmax`).

A tangle is `Consistent` when its blocks and its metadata have the same ids and its
children table holds exactly the edges of the stored blocks (`Consistent.insert`,
`Consistent.updateMetadata`).  It is `Good` when the solid flags are exact: a block flagged
solid has solid parents, a stored block whose parents are all solid is solid, and a solid
block that is not an entry point has its indexes.  `Tangle::insert` of a new block with
`BlockMetadata::arrived` changes no block's solidity (`isSolidBlock_insert`), and no other
block becomes ready to be made solid (`ready_insert`).  The invariants read only the keys of
the tables, so they are decidable for a given tangle (`consistent_iff_keys`, `good_iff_keys`).
-/

/-! ### Milestone indexes -/

/-- `IndexId`: a milestone index and the block it came from.  The code's `Ord` and `PartialEq`
look at the index alone. -/
structure IndexId where
  index : UInt32
  id : BlockId
  deriving DecidableEq

/-- The key the `Ord` of `IndexId` compares. -/
def IndexId.rank (i : IndexId) : Nat := i.index.toNat

/-- `Iterator::min` over `IndexId`s, which keeps the first of two equal ones. -/
def minIndexId : List IndexId → Option IndexId
  | [] => none
  | i :: is => some (is.foldl (fun m j => if j.index < m.index then j else m) i)

/-- `Iterator::max` over `IndexId`s, which takes the second of two equal ones. -/
def maxIndexId : List IndexId → Option IndexId
  | [] => none
  | i :: is => some (is.foldl (fun m j => if m.index ≤ j.index then j else m) i)

theorem minIndexId_concat (l : List IndexId) (a : IndexId) :
    minIndexId (l ++ [a]) =
      Option.casesOn (minIndexId l) (some a) fun m => some (if a.index < m.index then a else m) := by
  cases l with
  | nil => rfl
  | cons i is => simp [minIndexId, List.foldl_append]

theorem maxIndexId_concat (l : List IndexId) (a : IndexId) :
    maxIndexId (l ++ [a]) =
      Option.casesOn (maxIndexId l) (some a) fun m => some (if m.index ≤ a.index then a else m) := by
  cases l with
  | nil => rfl
  | cons i is => simp [maxIndexId, List.foldl_append]

/-- `Iterator::min` returns the first `IndexId` of the least index. -/
theorem minIndexId_eq_argmin (l : List IndexId) : minIndexId l = l.argmin IndexId.rank := by
  induction l using List.reverseRecOn with
  | nil => rfl
  | append_singleton l a ih =>
    rw [minIndexId_concat, List.argmin_concat, ← ih]
    cases minIndexId l with
    | none => rfl
    | some m =>
      have hlt : a.index < m.index ↔ a.rank < m.rank := UInt32.lt_iff_toNat_lt
      by_cases h : a.index < m.index
      · simp [h, hlt.mp h]
      · simp [h, mt hlt.mpr h]

/-- `Iterator::max` returns the last `IndexId` of the greatest index: the first one of the
reversed list. -/
theorem maxIndexId_eq_argmax (l : List IndexId) : maxIndexId l = l.reverse.argmax IndexId.rank := by
  induction l using List.reverseRecOn with
  | nil => rfl
  | append_singleton l a ih =>
    rw [maxIndexId_concat, List.reverse_append, List.reverse_singleton, List.singleton_append,
      List.argmax_cons, ← ih]
    cases maxIndexId l with
    | none => rfl
    | some m =>
      -- a tie goes to the later element on both sides
      have hle : m.index ≤ a.index ↔ ¬ a.rank < m.rank := by
        rw [UInt32.le_iff_toNat_le, not_lt]
        rfl
      by_cases h : m.index ≤ a.index
      · simp [h, hle.mp h]
      · simp [h, not_not.mp (mt hle.mpr h)]

theorem minIndexId_isSome {l : List IndexId} (hl : l ≠ []) : (minIndexId l).isSome := by
  rw [minIndexId_eq_argmin, Option.isSome_iff_ne_none, Ne, List.argmin_eq_none]
  exact hl

theorem maxIndexId_isSome {l : List IndexId} (hl : l ≠ []) : (maxIndexId l).isSome := by
  rw [maxIndexId_eq_argmax, Option.isSome_iff_ne_none, Ne, List.argmax_eq_none, List.reverse_eq_nil_iff]
  exact hl

/-! ### Metadata -/

/-- `BlockMetadata`, with what solidification reads and writes: the solid and milestone flags,
and the oldest and youngest milestone root snapshot indexes. -/
structure BlockMetadata where
  solid : Bool
  milestone : Bool
  omrsiAndYmrsi : Option (IndexId × IndexId)
  deriving DecidableEq

/-- `BlockMetadata::arrived`: the default, with no flag and no index set. -/
def BlockMetadata.arrived : BlockMetadata := ⟨false, false, none⟩

/-- `mark_solid`. -/
def BlockMetadata.markSolid (md : BlockMetadata) : BlockMetadata := { md with solid := true }

/-- `set_omrsi_and_ymrsi`. -/
def BlockMetadata.setOmrsiAndYmrsi (md : BlockMetadata) (omrsi ymrsi : IndexId) : BlockMetadata :=
  { md with omrsiAndYmrsi := some (omrsi, ymrsi) }

/-! ### The tangle -/

/-- `Tangle`: the tables of the storage it reads and writes, and the solid entry points. -/
structure Tangle where
  blockIdToBlock : Map BlockId Block
  blockIdToMetadata : Map BlockId BlockMetadata
  blockIdToBlockId : Map BlockId (List BlockId)
  solidEntryPoints : Map BlockId UInt32

namespace Tangle

/-- `Tangle::insert`: the block is stored, its metadata unless some is stored already
(`insert_strict`), and an edge from each parent to it. -/
def insert (t : Tangle) (block : Block) (blockId : BlockId) (metadata : BlockMetadata) : Tangle where
  blockIdToBlock := t.blockIdToBlock.insert blockId block
  blockIdToMetadata :=
    if blockId ∈ t.blockIdToMetadata then t.blockIdToMetadata
    else t.blockIdToMetadata.insert blockId metadata
  blockIdToBlockId :=
    block.parents.toList.foldl (fun e parent => VecTable.insert e parent blockId) t.blockIdToBlockId
  solidEntryPoints := t.solidEntryPoints

/-- `get`. -/
def get (t : Tangle) (blockId : BlockId) : Option Block := t.blockIdToBlock.lookup blockId

/-- `get_metadata`. -/
def getMetadata (t : Tangle) (blockId : BlockId) : Option BlockMetadata :=
  t.blockIdToMetadata.lookup blockId

/-- `get_children`: the children stored for a parent, none when there are none. -/
def getChildren (t : Tangle) (blockId : BlockId) : List BlockId := VecTable.fetch t.blockIdToBlockId blockId

/-- `get_solid_entry_point_index`. -/
def getSolidEntryPointIndex (t : Tangle) (sep : BlockId) : Option UInt32 := t.solidEntryPoints.lookup sep

/-- `is_solid_entry_point`. -/
def isSolidEntryPoint (t : Tangle) (id : BlockId) : Bool := (t.getSolidEntryPointIndex id).isSome

/-- The solid flag of a block's metadata, `false` without metadata. -/
def solidFlag (t : Tangle) (id : BlockId) : Bool := ((t.getMetadata id).map (·.solid)).getD false

/-- `is_solid_block`: a solid entry point, or a block flagged solid. -/
def isSolidBlock (t : Tangle) (id : BlockId) : Bool := t.isSolidEntryPoint id || t.solidFlag id

/-- `Tangle::omrsi_and_ymrsi`: an entry point's index and id for both, else the indexes of the
block's metadata. -/
def omrsiAndYmrsi (t : Tangle) (id : BlockId) : Option (IndexId × IndexId) :=
  match t.getSolidEntryPointIndex id with
  | some sep => some (⟨sep, id⟩, ⟨sep, id⟩)
  | none => (t.getMetadata id).bind (·.omrsiAndYmrsi)

/-- `update_metadata`: the tangle with the block's metadata updated, `none` without metadata. -/
def updateMetadata (t : Tangle) (blockId : BlockId) (update : BlockMetadata → BlockMetadata) :
    Option Tangle :=
  (t.getMetadata blockId).map fun md =>
    { t with blockIdToMetadata := t.blockIdToMetadata.insert blockId (update md) }

/-! ### Solidity -/

/-- The stored block `c` approves `p`: `p` is one of its parents. -/
def Approves (t : Tangle) (p c : BlockId) : Prop :=
  ∃ block, t.get c = some block ∧ p ∈ block.parents.toList

/-- The stored blocks and their metadata have the same ids, and the children table holds
exactly the edges of the stored blocks. -/
structure Consistent (t : Tangle) : Prop where
  metadata_iff : ∀ blockId, blockId ∈ t.blockIdToMetadata ↔ blockId ∈ t.blockIdToBlock
  children_iff : ∀ p c, c ∈ t.getChildren p ↔ t.Approves p c

/-- A block flagged solid has solid parents. -/
def SolidClosed (t : Tangle) : Prop :=
  ∀ b md block, t.getMetadata b = some md → md.solid = true → t.get b = some block →
    ∀ p ∈ block.parents.toList, t.isSolidBlock p = true

/-- A stored block that is not an entry point and whose parents are all solid is flagged solid. -/
def SolidComplete (t : Tangle) : Prop :=
  ∀ b block, t.get b = some block → t.isSolidEntryPoint b = false →
    (∀ p ∈ block.parents.toList, t.isSolidBlock p = true) → t.solidFlag b = true

/-- A block flagged solid that is not an entry point has its indexes. -/
def SolidIndexed (t : Tangle) : Prop :=
  ∀ b md, t.getMetadata b = some md → md.solid = true → t.isSolidEntryPoint b = false →
    md.omrsiAndYmrsi.isSome = true

/-- The solid set is exact, and its indexes are set. -/
structure Good (t : Tangle) : Prop where
  closed : t.SolidClosed
  complete : t.SolidComplete
  indexed : t.SolidIndexed

/-- A block flagged as a milestone has its indexes: `add_milestone` sets both at once. -/
def MilestonesIndexed (t : Tangle) : Prop :=
  ∀ b md, t.getMetadata b = some md → md.milestone = true → md.omrsiAndYmrsi.isSome = true

/-- `blockId` is stored and not solid, and its parents are all solid: the next block to make
solid. -/
def Ready (t : Tangle) (blockId : BlockId) : Prop :=
  t.isSolidBlock blockId = false ∧
    ∃ block, t.get blockId = some block ∧ ∀ p ∈ block.parents.toList, t.isSolidBlock p = true

/-- `md` holds the indexes `b` inherits from its parents in `t`: the first `omrsi` of the least
index and the last `ymrsi` of the greatest, in the order of the parents. -/
def Inherits (t : Tangle) (b : BlockId) (md : BlockMetadata) : Prop :=
  ∃ block ids omrsi ymrsi, t.get b = some block ∧
    block.parents.toList.mapM t.omrsiAndYmrsi = some ids ∧
    md.omrsiAndYmrsi = some (omrsi, ymrsi) ∧
    (ids.map Prod.fst).argmin IndexId.rank = some omrsi ∧
    (ids.map Prod.snd).reverse.argmax IndexId.rank = some ymrsi

section Reads

variable {t : Tangle} {b : BlockId}

theorem solidFlag_eq_true : t.solidFlag b = true ↔ ∃ md, t.getMetadata b = some md ∧ md.solid = true := by
  unfold solidFlag
  cases t.getMetadata b <;> simp

theorem solidFlag_of_getMetadata {md : BlockMetadata} (h : t.getMetadata b = some md) :
    t.solidFlag b = md.solid := by
  simp [solidFlag, h]

theorem isSolidBlock_eq_false :
    t.isSolidBlock b = false ↔ t.isSolidEntryPoint b = false ∧ t.solidFlag b = false := by
  simp [isSolidBlock]

/-- A solid block has its indexes when the solid blocks that are not entry points do. -/
theorem SolidIndexed.omrsiAndYmrsi_isSome (h : t.SolidIndexed) (hb : t.isSolidBlock b = true) :
    (t.omrsiAndYmrsi b).isSome := by
  unfold omrsiAndYmrsi
  cases hsep : t.getSolidEntryPointIndex b with
  | some sep => rfl
  | none =>
    have hnsep : t.isSolidEntryPoint b = false := by simp [isSolidEntryPoint, hsep]
    have hflag : t.solidFlag b = true := by simpa [isSolidBlock, hnsep] using hb
    obtain ⟨md, hmd, hs⟩ := solidFlag_eq_true.mp hflag
    have := h b md hmd hs hnsep
    simpa [hmd] using this

/-- `SolidComplete` says that no block is ready. -/
theorem solidComplete_iff : t.SolidComplete ↔ ∀ b, ¬ t.Ready b := by
  constructor
  · rintro h b ⟨hb, block, hget, hpar⟩
    have hflag := h b block hget (isSolidBlock_eq_false.mp hb).1 hpar
    simp [(isSolidBlock_eq_false.mp hb).2] at hflag
  · intro h b block hget hsep hpar
    by_contra hflag
    exact h b ⟨isSolidBlock_eq_false.mpr ⟨hsep, by simpa using hflag⟩, block, hget, hpar⟩

end Reads

/-! ### `insert` -/

section Insert

variable {t : Tangle} {block : Block} {x : BlockId} {md : BlockMetadata}

theorem get_insert (b : BlockId) : (t.insert block x md).get b = if b = x then some block else t.get b := by
  by_cases h : b = x
  · subst h
    simp [insert, get]
  · simp [insert, get, h, AList.lookup_insert_ne h]

theorem getMetadata_insert (hx : x ∉ t.blockIdToMetadata) (b : BlockId) :
    (t.insert block x md).getMetadata b = if b = x then some md else t.getMetadata b := by
  by_cases h : b = x
  · subst h
    simp [insert, getMetadata, hx]
  · simp [insert, getMetadata, hx, h, AList.lookup_insert_ne h]

theorem isSolidEntryPoint_insert : (t.insert block x md).isSolidEntryPoint = t.isSolidEntryPoint := rfl

theorem mem_getChildren_insert (p c : BlockId) :
    c ∈ (t.insert block x md).getChildren p ↔ c ∈ t.getChildren p ∨ (c = x ∧ p ∈ block.parents.toList) := by
  unfold getChildren insert
  dsimp only
  -- one edge `(parent, x)` per parent, by induction on the parents
  induction block.parents.toList generalizing t with
  | nil => simp
  | cons q qs ih =>
    rw [List.foldl_cons]
    have step := ih (t := { t with blockIdToBlockId := VecTable.insert t.blockIdToBlockId q x })
    dsimp only at step
    rw [step, VecTable.mem_fetch_insert, List.mem_cons]
    constructor
    · rintro ((h | ⟨rfl, rfl⟩) | ⟨rfl, h⟩)
      · exact .inl h
      · exact .inr ⟨rfl, .inl rfl⟩
      · exact .inr ⟨rfl, .inr h⟩
    · rintro (h | ⟨rfl, rfl | h⟩)
      · exact .inl (.inl h)
      · exact .inl (.inr ⟨rfl, rfl⟩)
      · exact .inr ⟨rfl, h⟩

/-- A new block with unflagged metadata changes no block's solidity flag. -/
theorem solidFlag_insert (hx : x ∉ t.blockIdToMetadata) (hmd : md.solid = false) (b : BlockId) :
    (t.insert block x md).solidFlag b = t.solidFlag b := by
  unfold solidFlag
  rw [getMetadata_insert hx]
  by_cases h : b = x
  · have hnone : t.getMetadata x = none := AList.lookup_eq_none.mpr hx
    simp [h, hnone, hmd]
  · simp [h]

theorem isSolidBlock_insert (hx : x ∉ t.blockIdToMetadata) (hmd : md.solid = false) (b : BlockId) :
    (t.insert block x md).isSolidBlock b = t.isSolidBlock b := by
  simp only [isSolidBlock, isSolidEntryPoint_insert, solidFlag_insert hx hmd]

/-- Away from the new block, a block is ready after the insert iff it was before. -/
theorem ready_insert (hx : x ∉ t.blockIdToMetadata) (hmd : md.solid = false) {b : BlockId}
    (hb : b ≠ x) : (t.insert block x md).Ready b ↔ t.Ready b := by
  simp only [Ready, isSolidBlock_insert hx hmd, get_insert, if_neg hb]

/-- Inserting a block that is not stored keeps a tangle consistent. -/
theorem Consistent.insert (h : t.Consistent) (hx : x ∉ t.blockIdToBlock) :
    (t.insert block x md).Consistent := by
  have hxm : x ∉ t.blockIdToMetadata := fun hm => hx ((h.metadata_iff x).mp hm)
  constructor
  · intro b
    simp only [Tangle.insert, hxm, if_false, AList.mem_insert, h.metadata_iff b]
  · intro p c
    have hnx : ¬ t.Approves p x := by
      rintro ⟨blk, hget, -⟩
      exact hx (AssocMap.mem_of_lookup_eq_some hget)
    rw [mem_getChildren_insert, h.children_iff]
    by_cases hc : c = x
    · subst hc
      -- the new block approves exactly its parents
      have happ : (t.insert block c md).Approves p c ↔ p ∈ block.parents.toList := by
        simp [Approves, get_insert]
      rw [happ, or_iff_right hnx]
      exact ⟨And.right, fun h' => ⟨rfl, h'⟩⟩
    · have happ : (t.insert block x md).Approves p c ↔ t.Approves p c := by
        simp [Approves, get_insert, hc]
      rw [happ]
      simp [hc]

end Insert

/-! ### `update_metadata` -/

section Update

variable {t t' : Tangle} {b : BlockId} {f : BlockMetadata → BlockMetadata}

/-- What `update_metadata` changes: the metadata of `b`, and nothing else. -/
theorem updateMetadata_eq_some (h : t.updateMetadata b f = some t') :
    ∃ md, t.getMetadata b = some md ∧ t'.blockIdToBlock = t.blockIdToBlock ∧
      t'.blockIdToBlockId = t.blockIdToBlockId ∧ t'.solidEntryPoints = t.solidEntryPoints ∧
      t'.blockIdToMetadata = t.blockIdToMetadata.insert b (f md) := by
  unfold updateMetadata at h
  cases hmd : t.getMetadata b with
  | none => simp [hmd] at h
  | some md =>
    simp only [hmd, Option.map_some, Option.some.injEq] at h
    subst h
    exact ⟨md, rfl, rfl, rfl, rfl, rfl⟩

theorem updateMetadata_isSome (hb : b ∈ t.blockIdToMetadata) : (t.updateMetadata b f).isSome := by
  obtain ⟨md, hmd⟩ := Option.isSome_iff_exists.mp (AList.lookup_isSome.mpr hb)
  simp [updateMetadata, getMetadata, hmd]

theorem get_of_updateMetadata (h : t.updateMetadata b f = some t') : t'.get = t.get := by
  obtain ⟨_, _, hblocks, -⟩ := updateMetadata_eq_some h
  funext c
  simp [get, hblocks]

theorem getChildren_of_updateMetadata (h : t.updateMetadata b f = some t') :
    t'.getChildren = t.getChildren := by
  obtain ⟨_, _, -, hchildren, -⟩ := updateMetadata_eq_some h
  funext c
  simp [getChildren, hchildren]

theorem isSolidEntryPoint_of_updateMetadata (h : t.updateMetadata b f = some t') :
    t'.isSolidEntryPoint = t.isSolidEntryPoint := by
  obtain ⟨_, _, -, -, hseps, -⟩ := updateMetadata_eq_some h
  funext c
  simp [isSolidEntryPoint, getSolidEntryPointIndex, hseps]

theorem getMetadata_of_updateMetadata (h : t.updateMetadata b f = some t') (c : BlockId) :
    t'.getMetadata c = if c = b then (t.getMetadata b).map f else t.getMetadata c := by
  obtain ⟨md, hmd, -, -, -, hmeta⟩ := updateMetadata_eq_some h
  by_cases hc : c = b
  · subst hc
    rw [if_pos rfl, hmd, Option.map_some]
    simp [getMetadata, hmeta]
  · simp [getMetadata, hmeta, hc, AList.lookup_insert_ne hc]

/-- At `b`, the metadata read is the updated one. -/
theorem getMetadata_of_updateMetadata_self (h : t.updateMetadata b f = some t') :
    ∃ md, t.getMetadata b = some md ∧ t'.getMetadata b = some (f md) := by
  obtain ⟨md, hmd, -⟩ := updateMetadata_eq_some h
  exact ⟨md, hmd, by rw [getMetadata_of_updateMetadata h, if_pos rfl, hmd, Option.map_some]⟩

/-- Away from `b`, the metadata read is the same. -/
theorem getMetadata_of_updateMetadata_ne (h : t.updateMetadata b f = some t') {c : BlockId}
    (hc : c ≠ b) : t'.getMetadata c = t.getMetadata c := by
  rw [getMetadata_of_updateMetadata h, if_neg hc]

theorem omrsiAndYmrsi_of_updateMetadata_ne (h : t.updateMetadata b f = some t') {c : BlockId}
    (hc : c ≠ b) : t'.omrsiAndYmrsi c = t.omrsiAndYmrsi c := by
  obtain ⟨_, _, -, -, hseps, -⟩ := updateMetadata_eq_some h
  simp only [omrsiAndYmrsi, getSolidEntryPointIndex, hseps, getMetadata_of_updateMetadata_ne h hc]

/-- An update keeps a tangle consistent. -/
theorem Consistent.updateMetadata (hc : t.Consistent) (h : t.updateMetadata b f = some t') :
    t'.Consistent := by
  obtain ⟨md, hmd, hblocks, -, -, hmeta⟩ := updateMetadata_eq_some h
  have hb : b ∈ t.blockIdToMetadata := AssocMap.mem_of_lookup_eq_some hmd
  constructor
  · intro c
    rw [hmeta, hblocks, AList.mem_insert, ← hc.metadata_iff c]
    constructor
    · rintro (rfl | hc')
      · exact hb
      · exact hc'
    · exact .inr
  · intro p c
    rw [getChildren_of_updateMetadata h, hc.children_iff]
    unfold Approves
    rw [get_of_updateMetadata h]

end Update

/-! ### Deciding the invariants of a given tangle -/

section Decide

variable (t : Tangle)

theorem mem_keys_of_lookup {V : Type} {m : Map BlockId V} {b : BlockId} {v : V}
    (h : m.lookup b = some v) : b ∈ m.keys :=
  AList.mem_keys.mp (AssocMap.mem_of_lookup_eq_some h)

/-- `Consistent`, over the keys of the tables. -/
theorem consistent_iff_keys : t.Consistent ↔
    (∀ b ∈ t.blockIdToMetadata.keys, b ∈ t.blockIdToBlock.keys) ∧
      (∀ b ∈ t.blockIdToBlock.keys, b ∈ t.blockIdToMetadata.keys) ∧
      (∀ p ∈ t.blockIdToBlockId.keys, ∀ c ∈ t.getChildren p, ∃ block ∈ t.get c,
        p ∈ block.parents.toList) ∧
      (∀ c ∈ t.blockIdToBlock.keys, ∀ block ∈ t.get c, ∀ p ∈ block.parents.toList,
        c ∈ t.getChildren p) := by
  constructor
  · rintro ⟨hmeta, hchildren⟩
    refine ⟨fun b hb => ?_, fun b hb => ?_, fun p _ c hc => (hchildren p c).mp hc,
      fun c _ block hget p hp => (hchildren p c).mpr ⟨block, hget, hp⟩⟩
    · exact AList.mem_keys.mp ((hmeta b).mp (AList.mem_keys.mpr hb))
    · exact AList.mem_keys.mp ((hmeta b).mpr (AList.mem_keys.mpr hb))
  · rintro ⟨hmb, hbm, hsound, hcomplete⟩
    constructor
    · intro b
      rw [AList.mem_keys, AList.mem_keys]
      exact ⟨hmb b, hbm b⟩
    · intro p c
      constructor
      · intro hc
        exact hsound p (AList.mem_keys.mp (VecTable.mem_of_mem_fetch hc)) c hc
      · rintro ⟨block, hget, hp⟩
        exact hcomplete c (mem_keys_of_lookup hget) block hget p hp

/-- `Good`, over the keys of the tables. -/
theorem good_iff_keys : t.Good ↔
    (∀ b ∈ t.blockIdToMetadata.keys, ∀ md ∈ t.getMetadata b, md.solid = true →
        ∀ block ∈ t.get b, ∀ p ∈ block.parents.toList, t.isSolidBlock p = true) ∧
      (∀ b ∈ t.blockIdToBlock.keys, ∀ block ∈ t.get b, t.isSolidEntryPoint b = false →
        (∀ p ∈ block.parents.toList, t.isSolidBlock p = true) → t.solidFlag b = true) ∧
      (∀ b ∈ t.blockIdToMetadata.keys, ∀ md ∈ t.getMetadata b, md.solid = true →
        t.isSolidEntryPoint b = false → md.omrsiAndYmrsi.isSome = true) := by
  constructor
  · rintro ⟨hclosed, hcomplete, hindexed⟩
    exact ⟨fun b _ md hmd hs block hget => hclosed b md block hmd hs hget,
      fun b _ block hget => hcomplete b block hget,
      fun b _ md hmd => hindexed b md hmd⟩
  · rintro ⟨hclosed, hcomplete, hindexed⟩
    exact ⟨fun b md block hmd hs hget => hclosed b (mem_keys_of_lookup hmd) md hmd hs block hget,
      fun b block hget => hcomplete b (mem_keys_of_lookup hget) block hget,
      fun b md hmd => hindexed b (mem_keys_of_lookup hmd) md hmd⟩

/-- `MilestonesIndexed`, over the keys of the metadata. -/
theorem milestonesIndexed_iff_keys : t.MilestonesIndexed ↔
    ∀ b ∈ t.blockIdToMetadata.keys, ∀ md ∈ t.getMetadata b, md.milestone = true →
      md.omrsiAndYmrsi.isSome = true :=
  ⟨fun h b _ md hmd => h b md hmd, fun h b md hmd => h b (mem_keys_of_lookup hmd) md hmd⟩

instance : Decidable t.Consistent := decidable_of_iff _ (consistent_iff_keys t).symm

instance : Decidable t.Good := decidable_of_iff _ (good_iff_keys t).symm

instance : Decidable t.MilestonesIndexed := decidable_of_iff _ (milestonesIndexed_iff_keys t).symm

end Decide

end Tangle

end Bee
