import Bee.Block.Crypto

namespace Bee

/-!
# bee-ledger-types — the records of the ledger

The values the ledger stores beside the outputs themselves: when an output was
created and when it was consumed, the treasury output with the milestone that
created it, receipts and the migrations they cause, and the diff a milestone
records.  `Receipt.validate` is the semantic check of a receipt against the
treasury output it consumes: the migrated funds do not overflow, stay within
the token supply, and are exactly what the treasury loses.
-/

/-- `CreatedOutput`: an output with the block and milestone that created it. -/
structure CreatedOutput where
  blockId : BlockId
  milestoneIndex : UInt32
  milestoneTimestamp : UInt32
  inner : Output
  deriving DecidableEq

/-- `ConsumedOutput`: the transaction and milestone that consumed an output. -/
structure ConsumedOutput where
  target : TransactionId
  milestoneIndex : UInt32
  milestoneTimestamp : UInt32
  deriving DecidableEq

/-- `TreasuryOutput` of the ledger: the treasury output and the milestone that created it. -/
structure LedgerTreasuryOutput where
  inner : TreasuryOutput
  milestoneId : MilestoneId
  deriving DecidableEq

/-- `Receipt`: a receipt and the milestone that included it. -/
structure Receipt where
  inner : ReceiptMilestoneOption
  includedIn : UInt32
  deriving DecidableEq

/-- `Migration`: a receipt with the treasury output it consumes and the one it creates. -/
structure Migration where
  receipt : Receipt
  consumedTreasury : LedgerTreasuryOutput
  createdTreasury : LedgerTreasuryOutput
  deriving DecidableEq

/-- `TreasuryDiff`: the milestones of the created and the consumed treasury output. -/
structure TreasuryDiff where
  created : MilestoneId
  consumed : MilestoneId
  deriving DecidableEq

/-- `OutputDiff`: what a milestone created and consumed. -/
structure OutputDiff where
  createdOutputs : List OutputId
  consumedOutputs : List OutputId
  treasuryDiff : Option TreasuryDiff
  deriving DecidableEq

/-- The variants of `bee_ledger_types::Error` that `Receipt::validate` returns. -/
inductive ReceiptError
  | migratedFundsAmountOverflow
  | invalidMigratedFundsAmount (amount : UInt64)
  | consumedTreasuryOutputMismatch (input consumed : MilestoneId)
  | treasuryAmountMismatch (created expected : UInt64)
  deriving DecidableEq

/-- The sum of the migrated funds with `checked_add`. -/
def migratedAmount (funds : List MigratedFundsEntry) : Option UInt64 :=
  funds.foldlM (fun sum f => sum.checkedAdd f.amount) 0

/-- `Receipt::validate`. -/
def Receipt.validate (r : Receipt) (consumedTreasury : LedgerTreasuryOutput) (tokenSupply : UInt64) :
    Except ReceiptError Unit :=
  match migratedAmount r.inner.funds with
  | none => .error .migratedFundsAmountOverflow
  | some migrated =>
    if migrated > tokenSupply then .error (.invalidMigratedFundsAmount migrated)
    else if r.inner.transaction.input ≠ consumedTreasury.milestoneId then
      .error (.consumedTreasuryOutputMismatch r.inner.transaction.input consumedTreasury.milestoneId)
    else
      match consumedTreasury.inner.amount.checkedSub migrated with
      | none => .error .migratedFundsAmountOverflow
      | some created =>
        if created ≠ r.inner.transaction.output.amount then
          .error (.treasuryAmountMismatch created r.inner.transaction.output.amount)
        else .ok ()

end Bee
