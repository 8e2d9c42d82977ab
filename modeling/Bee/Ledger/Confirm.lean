import Bee.Ledger.WhiteFlag

namespace Bee

open AssocMap

/-!
# bee-ledger — confirming a milestone

`confirm` of the consensus worker, and the check of the ledger state it is meant
to preserve.

* `confirm` — the milestone must follow the ledger index; white flag runs over
  its parents; the Merkle roots must be the essence's; a receipt creates a
  basic output for each of its funds (under the milestone id as transaction id)
  and migrates the treasury; `apply_milestone` writes the result.  The Merkle
  roots and the receipt are `confirmMetadata`, the part after white flag.
* `Storage.validateLedgerState` — `validate_ledger_state`: the amounts of the
  unspent outputs, summed with `checked_add`, and the unspent treasury make up
  the token supply.

The source panics when the storage does not hold exactly one unspent treasury
output (`fetch_unspent_treasury_output`); the model returns `none` there, as it
does when the walk of white flag runs out of fuel.  The worker panics on any
error of `confirm`, so its state is modelled only after a confirmation that
succeeds.
-/

variable (c : Crypto)

end Bee
