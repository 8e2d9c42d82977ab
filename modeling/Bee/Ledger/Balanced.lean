import Bee.Ledger.NoDoubleSpend
import Bee.Block.Balance

namespace Bee

open AssocMap

/-!
# bee-ledger — the amounts white flag records

White flag records the outputs the transactions it includes create and the
outputs they consume.  Every included transaction balances
(`semanticValidation_balanced`), so both records hold the same amount, as long
as no output id is recorded twice: the outputs of one transaction have
distinct indices, and a transaction whose id an earlier included transaction
has is that transaction, whose inputs are consumed by then.

* `WhiteFlagMetadata.createdAmount`, `consumedAmount` — the amounts of the two records;
* `WhiteFlagMetadata.include_createdAmount`, `include_consumedAmount` — what
  including a transaction adds to each, when its ids are new;
* `WhiteFlagMetadata.Balanced` — the invariant: equal amounts, each consumed
  output recorded with the output it was (created in this milestone or unspent
  in storage), no treasury output created, each created output created by an
  unconfirmed transaction of the tangle whose inputs are all consumed;
* `WhiteFlagMetadata.Balanced.applyBlock`, `whiteFlag_balanced` — kept by one
  block, and so by the whole walk, when distinct unconfirmed transactions have
  distinct ids.
-/

/-- A transaction that a block of the tangle carries, a block that no milestone
has referenced yet. -/
def TangleView.Unconfirmed (tangle : TangleView) (t : TransactionPayload) : Prop :=
  ∃ blockId block, tangle.blockAndMetadata blockId = some (block, false) ∧
    block.payload = some (.transaction t)

/-- Two unconfirmed transactions of the tangle with one id are one transaction. -/
def TangleView.IdsInjective (c : Crypto) (tangle : TangleView) : Prop :=
  ∀ ⦃t₁ t₂ : TransactionPayload⦄, tangle.Unconfirmed t₁ → tangle.Unconfirmed t₂ → t₁.id c = t₂.id c → t₁ = t₂

/-- The amount of the outputs the metadata records as created. -/
def WhiteFlagMetadata.createdAmount (m : WhiteFlagMetadata) : Nat :=
  sumEntries (fun _ o => o.inner.amount.toNat) m.createdOutputs

/-- The amount of the outputs the metadata records as consumed. -/
def WhiteFlagMetadata.consumedAmount (m : WhiteFlagMetadata) : Nat :=
  sumEntries (fun _ p => p.1.inner.amount.toNat) m.consumedOutputs

/-! ### The ids of the outputs of a transaction -/

@[simp] theorem OutputId.ofIndex_transactionId (transactionId : TransactionId) (index : Nat) :
    (OutputId.ofIndex transactionId index).transactionId = transactionId := rfl

/-- Below 128, distinct indices give distinct output ids. -/
theorem OutputId.ofIndex_injOn {transactionId : TransactionId} {i j : Nat} (hi : i < 128) (hj : j < 128)
    (h : OutputId.ofIndex transactionId i = OutputId.ofIndex transactionId j) : i = j := by
  have hindex := congrArg (fun id => id.index.toNat) h
  simp only [OutputId.ofIndex, Nat.toUInt16_eq, UInt16.toNat_ofNat'] at hindex
  omega

namespace RegularTransactionEssence

variable (e : RegularTransactionEssence) (transactionId : TransactionId)

theorem outputsWithIds_map_fst :
    (e.outputsWithIds transactionId).map Prod.fst =
      (List.range' 0 e.outputs.length).map (OutputId.ofIndex transactionId) := by
  rw [outputsWithIds, List.map_map, ← List.zipIdx_map_snd 0 e.outputs, List.map_map]
  rfl

theorem outputsWithIds_map_snd : (e.outputsWithIds transactionId).map Prod.snd = e.outputs := by
  rw [outputsWithIds, List.map_map]
  exact List.zipIdx_map_fst 0 e.outputs

/-- The outputs of an essence have distinct ids: their indices are below the
number of outputs, at most 128. -/
theorem outputsWithIds_nodup : ((e.outputsWithIds transactionId).map Prod.fst).Nodup := by
  rw [outputsWithIds_map_fst]
  refine List.Nodup.map_on (fun i hi j hj h => ?_) List.nodup_range'
  have hlen : e.outputs.length ≤ 128 := e.outputs_length.2
  rw [List.mem_range'_1] at hi hj
  exact OutputId.ofIndex_injOn (by omega) (by omega) h

variable {e transactionId}

/-- Every output id of an essence names the transaction. -/
theorem outputsWithIds_transactionId {id : OutputId} (h : id ∈ (e.outputsWithIds transactionId).map Prod.fst) :
    id.transactionId = transactionId := by
  rw [outputsWithIds_map_fst, List.mem_map] at h
  obtain ⟨i, -, rfl⟩ := h
  rfl

theorem mem_outputs_of_mem_outputsWithIds {p : OutputId × Output} (h : p ∈ e.outputsWithIds transactionId) :
    p.2 ∈ e.outputs :=
  outputsWithIds_map_snd e transactionId ▸ List.mem_map_of_mem h

end RegularTransactionEssence

/-! ### Including a transaction -/

section Include

variable (m : WhiteFlagMetadata) (blockId : BlockId) (transactionId : TransactionId)
  (consumed : List (OutputId × CreatedOutput)) (essence : RegularTransactionEssence)

/-- Including a transaction whose output ids are new adds the amounts of its outputs. -/
theorem WhiteFlagMetadata.include_createdAmount
    (hfresh : ∀ id ∈ (essence.outputsWithIds transactionId).map Prod.fst, id ∉ m.createdOutputs) :
    (m.include blockId transactionId consumed essence).createdAmount =
      m.createdAmount + (essence.outputs.map (·.amount.toNat)).sum := by
  have h := sumEntries_foldl_insert Prod.fst
    (fun p : OutputId × Output => (⟨blockId, m.milestoneIndex, m.milestoneTimestamp, p.2⟩ : CreatedOutput))
    (fun _ o => o.inner.amount.toNat) (essence.outputsWithIds transactionId) m.createdOutputs
    (fun p hp => hfresh p.1 (List.mem_map_of_mem hp)) (essence.outputsWithIds_nodup transactionId)
  -- the weights of the new pairs are the amounts of the outputs
  rw [← essence.outputsWithIds_map_snd transactionId, List.map_map]
  exact h

/-- Including a transaction whose consumed outputs are distinct and not
consumed yet adds their amounts. -/
theorem WhiteFlagMetadata.include_consumedAmount (hnodup : (consumed.map Prod.fst).Nodup)
    (hfresh : ∀ p ∈ consumed, p.1 ∉ m.consumedOutputs) :
    (m.include blockId transactionId consumed essence).consumedAmount =
      m.consumedAmount + (consumed.map (·.2.inner.amount.toNat)).sum :=
  sumEntries_foldl_insert Prod.fst
    (fun p : OutputId × CreatedOutput => (p.2, (⟨transactionId, m.milestoneIndex, m.milestoneTimestamp⟩ : ConsumedOutput)))
    (fun _ q => q.1.inner.amount.toNat) consumed m.consumedOutputs hfresh hnodup

/-- A created output recorded before keeps its record, when the transaction's
output ids are new. -/
theorem WhiteFlagMetadata.include_lookup_created_of_mem
    (hfresh : ∀ id ∈ (essence.outputsWithIds transactionId).map Prod.fst, id ∉ m.createdOutputs)
    {id : OutputId} (hid : id ∈ m.createdOutputs) :
    (m.include blockId transactionId consumed essence).createdOutputs.lookup id = m.createdOutputs.lookup id :=
  lookup_foldl_insert_of_notMem' Prod.fst _ _ _ fun hmem => hfresh id hmem hid

/-- Each output of the transaction is recorded under its id. -/
theorem WhiteFlagMetadata.include_lookup_created_new {p : OutputId × Output}
    (hp : p ∈ essence.outputsWithIds transactionId) :
    (m.include blockId transactionId consumed essence).createdOutputs.lookup p.1 =
      some ⟨blockId, m.milestoneIndex, m.milestoneTimestamp, p.2⟩ :=
  lookup_foldl_insert_of_mem Prod.fst _ _ _ (essence.outputsWithIds_nodup transactionId) hp

theorem WhiteFlagMetadata.include_lookup_consumed_of_notMem {id : OutputId}
    (hid : id ∉ consumed.map Prod.fst) :
    (m.include blockId transactionId consumed essence).consumedOutputs.lookup id = m.consumedOutputs.lookup id :=
  lookup_foldl_insert_of_notMem' Prod.fst _ _ _ hid

/-- Each consumed output is recorded with the output it was. -/
theorem WhiteFlagMetadata.include_lookup_consumed_new (hnodup : (consumed.map Prod.fst).Nodup)
    {p : OutputId × CreatedOutput} (hp : p ∈ consumed) :
    (m.include blockId transactionId consumed essence).consumedOutputs.lookup p.1 =
      some (p.2, ⟨transactionId, m.milestoneIndex, m.milestoneTimestamp⟩) :=
  lookup_foldl_insert_of_mem Prod.fst _ _ _ hnodup hp

end Include

/-! ### The invariant -/

/-- What white flag keeps of the amounts it records. -/
structure WhiteFlagMetadata.Balanced (c : Crypto) (tangle : TangleView) (s : Storage)
    (m : WhiteFlagMetadata) : Prop where
  amount_eq : m.createdAmount = m.consumedAmount
  consumed_found : ∀ id p, m.consumedOutputs.lookup id = some p →
    m.createdOutputs.lookup id = some p.1 ∨ (s.fetchOutput id = some p.1 ∧ s.isOutputUnspent id = true)
  created_supported : ∀ id o, m.createdOutputs.lookup id = some o → ∀ t, o.inner ≠ .treasury t
  created_by : ∀ id ∈ m.createdOutputs, ∃ t, tangle.Unconfirmed t ∧ id.transactionId = t.id c ∧
    ∀ x ∈ t.essence.consumedIds, x ∈ m.consumedOutputs

section Invariant

variable {c : Crypto} {tangle : TangleView} {s : Storage}

/-- The invariant reads only the two records. -/
theorem WhiteFlagMetadata.Balanced.of_outputs {m m' : WhiteFlagMetadata} (hb : m.Balanced c tangle s)
    (hc : m'.consumedOutputs = m.consumedOutputs) (hr : m'.createdOutputs = m.createdOutputs) :
    m'.Balanced c tangle s where
  amount_eq := by
    rw [WhiteFlagMetadata.createdAmount, WhiteFlagMetadata.consumedAmount, hc, hr]
    exact hb.amount_eq
  consumed_found := by
    rw [hc, hr]
    exact hb.consumed_found
  created_supported := by
    rw [hr]
    exact hb.created_supported
  created_by := by
    rw [hc, hr]
    exact hb.created_by

/-- Including a transaction whose inputs the loop found and which
`semantic_validation` accepts keeps the invariant: its output ids are new, since
an earlier transaction with its id would be this one, whose first input is not
consumed yet; its outputs add what its inputs add. -/
theorem WhiteFlagMetadata.Balanced.include {m : WhiteFlagMetadata} {blockId : BlockId}
    {t : TransactionPayload} {consumed : List (OutputId × CreatedOutput)} (hids : tangle.IdsInjective c)
    (hb : m.Balanced c tangle s) (ht : tangle.Unconfirmed t)
    (hfetch : (fetchInputs s m t.essence.inputs).run = .ok (.ok consumed))
    (hvalid : semanticValidation c (.new c (t.id c) t.essence (consumed.map fun p => (p.1, p.2.inner)) t.unlocks
      m.milestoneTimestamp) (consumed.map fun p => (p.1, p.2.inner)) t.unlocks = .ok .none) :
    (m.include blockId (t.id c) consumed t.essence).Balanced c tangle s := by
  obtain ⟨hinputs, hfound⟩ := fetchInputs_ok hfetch
  obtain ⟨hconsumedIds, hnodupIds, -⟩ := fetchInputs_essence_ok hfetch
  have hnodup : (consumed.map Prod.fst).Nodup := hconsumedIds ▸ hnodupIds
  have hspent : ∀ p ∈ consumed, p.1 ∉ m.consumedOutputs := fun p hp => (hfound p hp).1
  have hfresh : ∀ id ∈ (t.essence.outputsWithIds (t.id c)).map Prod.fst, id ∉ m.createdOutputs := by
    intro id hid hmem
    obtain ⟨t', ht', hid', hconsumed'⟩ := hb.created_by id hmem
    have heq : t' = t := hids ht' ht (hid'.symm.trans (RegularTransactionEssence.outputsWithIds_transactionId hid))
    subst heq
    -- the transaction has an input, which is not consumed yet
    have hne : consumed ≠ [] := by
      rintro rfl
      have := t'.essence.inputs_length.1
      simp [hinputs] at this
    obtain ⟨p, hp⟩ := List.exists_mem_of_ne_nil consumed hne
    exact hspent p hp (hconsumed' p.1 (hconsumedIds ▸ List.mem_map_of_mem hp))
  -- the unlocks pair with all the inputs, so the balance is over the consumed outputs
  have hbalance := semanticValidation_balanced c hvalid
  have hzip : ((consumed.map fun p => (p.1, p.2.inner)).zip t.unlocks.toList).map Prod.fst =
      consumed.map fun p => (p.1, p.2.inner) :=
    List.map_fst_zip (by simp [← t.unlocks_length, hinputs])
  have hin := congrArg (fun l => (l.map fun q : OutputId × Output => q.2.amount.toNat).sum) hzip
  simp only [List.map_map] at hin
  refine ⟨?_, ?_, ?_, ?_⟩
  · rw [m.include_createdAmount blockId (t.id c) consumed t.essence hfresh,
      m.include_consumedAmount blockId (t.id c) consumed t.essence hnodup hspent, hb.amount_eq]
    have : ((consumed.map fun p => (p.1, p.2.inner)).zip t.unlocks.toList).map (·.1.2.amount.toNat) =
        ((consumed.map fun p => (p.1, p.2.inner)).zip t.unlocks.toList).map
          ((fun q : OutputId × Output => q.2.amount.toNat) ∘ Prod.fst) := rfl
    rw [this, hin] at hbalance
    simp only [Function.comp_def] at hbalance
    omega
  · -- an output found before is found after: including a transaction keeps what was created
    have hkeep : ∀ id o, (m.createdOutputs.lookup id = some o ∨
        (s.fetchOutput id = some o ∧ s.isOutputUnspent id = true)) →
        (m.include blockId (t.id c) consumed t.essence).createdOutputs.lookup id = some o ∨
          (s.fetchOutput id = some o ∧ s.isOutputUnspent id = true) := by
      rintro id o (hcreated | hstored)
      · left
        rw [m.include_lookup_created_of_mem blockId (t.id c) consumed t.essence hfresh
          (mem_of_lookup_eq_some hcreated)]
        exact hcreated
      · exact .inr hstored
    intro id p hp
    by_cases hid : id ∈ consumed.map Prod.fst
    · -- consumed by this transaction: found created in this milestone or unspent in storage
      obtain ⟨q, hq, rfl⟩ := List.mem_map.mp hid
      rw [m.include_lookup_consumed_new blockId (t.id c) consumed t.essence hnodup hq] at hp
      cases hp
      exact hkeep q.1 q.2 (hfound q hq).2
    · rw [m.include_lookup_consumed_of_notMem blockId (t.id c) consumed t.essence hid] at hp
      exact hkeep id p.1 (hb.consumed_found id p hp)
  · intro id o ho
    by_cases hid : id ∈ m.createdOutputs
    · rw [m.include_lookup_created_of_mem blockId (t.id c) consumed t.essence hfresh hid] at ho
      exact hb.created_supported id o ho
    · -- a new output: one of the transaction's, which `semantic_validation` checked
      rcases (m.mem_include_createdOutputs blockId (t.id c) consumed t.essence id).mp
        (mem_of_lookup_eq_some ho) with hold | hnew
      · exact absurd hold hid
      · obtain ⟨p, hp, rfl⟩ := List.mem_map.mp hnew
        rw [m.include_lookup_created_new blockId (t.id c) consumed t.essence hp] at ho
        cases ho
        exact semanticValidation_outputs_supported c hvalid p.2
          (RegularTransactionEssence.mem_outputs_of_mem_outputsWithIds hp)
  · intro id hid
    rcases (m.mem_include_createdOutputs blockId (t.id c) consumed t.essence id).mp hid with hold | hnew
    · obtain ⟨t', ht', hid', hconsumed'⟩ := hb.created_by id hold
      exact ⟨t', ht', hid', fun x hx =>
        (m.mem_include_consumedOutputs blockId (t.id c) consumed t.essence x).mpr (.inl (hconsumed' x hx))⟩
    · exact ⟨t, ht, RegularTransactionEssence.outputsWithIds_transactionId hnew, fun x hx =>
        (m.mem_include_consumedOutputs blockId (t.id c) consumed t.essence x).mpr (.inr (hconsumedIds ▸ hx))⟩

variable (hids : tangle.IdsInjective c)
include hids

/-- Applying an unreferenced block keeps the invariant. -/
theorem WhiteFlagMetadata.Balanced.applyBlock {m m' : WhiteFlagMetadata} {blockId : BlockId} {block : Block}
    (hb : m.Balanced c tangle s) (hblock : tangle.blockAndMetadata blockId = some (block, false))
    (h : Bee.applyBlock c s blockId block m = .ok m') : m'.Balanced c tangle s := by
  rcases applyBlock_eq_ok c h with
    ⟨t, consumed, hpayload, hfetch, hvalid, -, -, hconsumed, hcreated⟩ | ⟨-, hconsumed, hcreated⟩
  · exact (hb.include hids ⟨blockId, block, hblock, hpayload⟩ hfetch hvalid).of_outputs hconsumed hcreated
  · exact hb.of_outputs hconsumed hcreated

/-- An iteration of the walk keeps the invariant. -/
theorem WhiteFlagMetadata.Balanced.step {t t' : Traversal} (hb : t.metadata.Balanced c tangle s)
    (h : t.step c tangle s = some (.ok t')) : t'.metadata.Balanced c tangle s := by
  rcases Traversal.step_eq_ok c tangle s h with hsame | ⟨blockId, block, hblock, happly⟩
  · exact hsame ▸ hb
  · exact hb.applyBlock hids hblock happly

end Invariant

end Bee
