import Bee.Storage.Memory
import Bee.Block.Semantic

namespace Bee

open AssocMap

/-!
# bee-ledger — the ledger in storage

How the ledger writes a confirmed milestone to storage, and undoes it.  A
created output is written to the created-output table and marked unspent; a
consumed output is written to the consumed-output table and unmarked.
`apply_milestone` writes, in one batch, the ledger index, every created output,
then every consumed output, the migration of a receipt, and the milestone's
output diff.  `rollback_milestone` writes the batch meant to undo it: the
previous ledger index, every created output deleted, then every consumed output
written back as created and unspent, the migration undone, the diff deleted.

The two batches are not inverse when an output is created and consumed by the
same milestone: `apply_milestone` leaves it created, consumed and not unspent,
and `rollback_milestone` deletes it as created only to write it back as a
created, unspent output (`rollback_restores_consumed_created_output`).
-/

namespace StorageBatch

variable (b : StorageBatch)

/-- `insert_created_output_batch`: the created output, and its id marked unspent. -/
def insertCreatedOutput (outputId : OutputId) (output : CreatedOutput) : StorageBatch :=
  { b with
    outputIdToCreatedOutput := b.outputIdToCreatedOutput ++ [.insert outputId output]
    outputIdUnspent := b.outputIdUnspent ++ [.insert outputId ()] }

/-- `delete_created_output_batch`. -/
def deleteCreatedOutput (outputId : OutputId) : StorageBatch :=
  { b with
    outputIdToCreatedOutput := b.outputIdToCreatedOutput ++ [.delete outputId]
    outputIdUnspent := b.outputIdUnspent ++ [.delete outputId] }

/-- `insert_consumed_output_batch`: the consumed output, and its id unmarked. -/
def insertConsumedOutput (outputId : OutputId) (output : ConsumedOutput) : StorageBatch :=
  { b with
    outputIdToConsumedOutput := b.outputIdToConsumedOutput ++ [.insert outputId output]
    outputIdUnspent := b.outputIdUnspent ++ [.delete outputId] }

/-- `delete_consumed_output_batch`: the consumed output deleted, its id marked unspent. -/
def deleteConsumedOutput (outputId : OutputId) : StorageBatch :=
  { b with
    outputIdToConsumedOutput := b.outputIdToConsumedOutput ++ [.delete outputId]
    outputIdUnspent := b.outputIdUnspent ++ [.insert outputId ()] }

/-- `insert_ledger_index_batch`. -/
def insertLedgerIndex (index : UInt32) : StorageBatch :=
  { b with ledgerIndex := b.ledgerIndex ++ [.insert () index] }

/-- `insert_receipt_batch`: keyed by the index the receipt migrated at. -/
def insertReceipt (receipt : Receipt) : StorageBatch :=
  { b with milestoneIndexToReceipt := b.milestoneIndexToReceipt ++ [.insert (receipt.inner.migratedAt, receipt) ()] }

/-- `delete_receipt_batch`. -/
def deleteReceipt (receipt : Receipt) : StorageBatch :=
  { b with milestoneIndexToReceipt := b.milestoneIndexToReceipt ++ [.delete (receipt.inner.migratedAt, receipt)] }

/-- `insert_treasury_output_batch`: an unspent treasury output. -/
def insertTreasuryOutput (t : LedgerTreasuryOutput) : StorageBatch :=
  { b with spentToTreasuryOutput := b.spentToTreasuryOutput ++ [.insert (false, t) ()] }

/-- `delete_treasury_output_batch`. -/
def deleteTreasuryOutput (t : LedgerTreasuryOutput) : StorageBatch :=
  { b with spentToTreasuryOutput := b.spentToTreasuryOutput ++ [.delete (false, t)] }

/-- `spend_treasury_output_batch`: written as spent, deleted as unspent. -/
def spendTreasuryOutput (t : LedgerTreasuryOutput) : StorageBatch :=
  { b with spentToTreasuryOutput := b.spentToTreasuryOutput ++ [.insert (true, t) (), .delete (false, t)] }

/-- `unspend_treasury_output_batch`: written as unspent, deleted as spent. -/
def unspendTreasuryOutput (t : LedgerTreasuryOutput) : StorageBatch :=
  { b with spentToTreasuryOutput := b.spentToTreasuryOutput ++ [.insert (false, t) (), .delete (true, t)] }

/-- `Batch::<MilestoneIndex, OutputDiff>::batch_insert`. -/
def insertOutputDiff (index : UInt32) (diff : OutputDiff) : StorageBatch :=
  { b with milestoneIndexToOutputDiff := b.milestoneIndexToOutputDiff ++ [.insert index diff] }

/-- `Batch::<MilestoneIndex, OutputDiff>::batch_delete`. -/
def deleteOutputDiff (index : UInt32) : StorageBatch :=
  { b with milestoneIndexToOutputDiff := b.milestoneIndexToOutputDiff ++ [.delete index] }

end StorageBatch

namespace Storage

variable (s : Storage)

/-- `fetch_output`: the created-output table. -/
def fetchOutput (outputId : OutputId) : Option CreatedOutput := s.outputIdToCreatedOutput.lookup outputId

/-- `is_output_unspent`. -/
def isOutputUnspent (outputId : OutputId) : Bool := (s.outputIdUnspent.lookup outputId).isSome

/-- `apply_milestone`. -/
def applyMilestone (index : UInt32) (createdOutputs : Map OutputId CreatedOutput)
    (consumedOutputs : Map OutputId (CreatedOutput × ConsumedOutput)) (migration : Option Migration) :
    Storage :=
  let b := ({} : StorageBatch).insertLedgerIndex index
  let b := createdOutputs.entries.foldl (fun b e => b.insertCreatedOutput e.1 e.2) b
  let b := consumedOutputs.entries.foldl (fun b e => b.insertConsumedOutput e.1 e.2.2) b
  let (b, treasuryDiff) := match migration with
    | some m =>
      ((((b.insertReceipt m.receipt).insertTreasuryOutput m.createdTreasury).spendTreasuryOutput
        m.consumedTreasury), some (TreasuryDiff.mk m.createdTreasury.milestoneId m.consumedTreasury.milestoneId))
    | none => (b, none)
  s.batchCommit (b.insertOutputDiff index ⟨createdOutputs.keys, consumedOutputs.keys, treasuryDiff⟩)

/-- `rollback_milestone`. -/
def rollbackMilestone (index : UInt32) (createdOutputs : Map OutputId CreatedOutput)
    (consumedOutputs : Map OutputId (CreatedOutput × ConsumedOutput)) (migration : Option Migration) :
    Storage :=
  let b := ({} : StorageBatch).insertLedgerIndex (index - 1)
  let b := createdOutputs.entries.foldl (fun b e => b.deleteCreatedOutput e.1) b
  let b := consumedOutputs.entries.foldl
    (fun b e => (b.insertCreatedOutput e.1 e.2.1).deleteConsumedOutput e.1) b
  let b := match migration with
    | some m =>
      ((b.deleteReceipt m.receipt).deleteTreasuryOutput m.createdTreasury).unspendTreasuryOutput
        m.consumedTreasury
    | none => b
  s.batchCommit (b.deleteOutputDiff index)

end Storage

/-! ### Rolling back an output created and consumed by one milestone -/

/-- A created output of a basic output of amount 1 to the key `1…1`. -/
def createdBasic (blockByte : UInt8) : CreatedOutput :=
  ⟨.replicate 32 blockByte, 1, 0, .basic (.simple 1 (.ed25519 (.replicate 32 1)))⟩

/-- A storage at ledger index 0 with one unspent output `(3…3, 0)` and an unspent treasury. -/
def rollbackStorage : Storage where
  outputIdToCreatedOutput := collect [(.ofIndex (.replicate 32 3) 0, createdBasic 3)]
  outputIdToConsumedOutput := ∅
  outputIdUnspent := collect [(.ofIndex (.replicate 32 3) 0, ())]
  ledgerIndex := some 0
  milestoneIndexToOutputDiff := ∅
  milestoneIndexToReceipt := ∅
  spentToTreasuryOutput := collect [(false, [⟨⟨5⟩, .replicate 32 0⟩])]

/-- Milestone 1 creates `(4…4, 0)` and `(4…4, 1)` and consumes `(3…3, 0)` and `(4…4, 0)`. -/
def rollbackCreated : Map OutputId CreatedOutput :=
  collect [(.ofIndex (.replicate 32 4) 0, createdBasic 4), (.ofIndex (.replicate 32 4) 1, createdBasic 4)]

/-- The consumed outputs of milestone 1, consumed by the transaction `4…4`. -/
def rollbackConsumed : Map OutputId (CreatedOutput × ConsumedOutput) :=
  collect [(.ofIndex (.replicate 32 3) 0, (createdBasic 3, ⟨.replicate 32 4, 1, 0⟩)),
    (.ofIndex (.replicate 32 4) 0, (createdBasic 4, ⟨.replicate 32 4, 1, 0⟩))]

theorem rollback_restores_consumed_created_output :
    rollbackStorage.ledgerIndex = some 0 ∧
      (∀ e ∈ rollbackConsumed.entries,
        rollbackStorage.isOutputUnspent e.1 = true ∨ e.1 ∈ rollbackCreated) ∧
      rollbackStorage.fetchOutput ⟨.replicate 32 4, 0, by decide⟩ = none ∧
      rollbackStorage.isOutputUnspent ⟨.replicate 32 4, 0, by decide⟩ = false ∧
      ((rollbackStorage.applyMilestone 1 rollbackCreated rollbackConsumed none).rollbackMilestone 1
        rollbackCreated rollbackConsumed none).fetchOutput ⟨.replicate 32 4, 0, by decide⟩ =
          some (createdBasic 4) ∧
      ((rollbackStorage.applyMilestone 1 rollbackCreated rollbackConsumed none).rollbackMilestone 1
        rollbackCreated rollbackConsumed none).isOutputUnspent ⟨.replicate 32 4, 0, by decide⟩ = true := by
  decide +kernel

end Bee
