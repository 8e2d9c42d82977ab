import Bee.Ledger.NoDoubleSpend
import Bee.Block.Unpack

namespace Bee

open Codec AssocMap

/-!
# bee-ledger — errors of confirmation

`apply_regular_essence` returns the `Err` of `semantic_validation` as a ledger
error (`white_flag` passes it up with `?`), and the consensus worker panics on
any error of `confirm` ("Aborting due to unexpected ledger error.").  Every
invalid transaction must therefore end in a `ConflictReason`, not an `Err`.

`verify_outputs` bounds the amount sum of an essence by the token supply and its
number of native tokens by 64, but not the sum of the amounts of one native
token over several outputs: two outputs holding `2^255` of one token each pass
`unpack` and make the created sum overflow `U256`
(`native_token_overflow_aborts_confirmation`).
-/

/-! ### Two outputs of half the `U256` range of one token -/

/-- `2^255` of the token `7…7`. -/
def halfToken : NativeToken := ⟨.replicate 38 7, 1 <<< 255, by decide⟩

/-- A basic output of 50000 to the key `2…2` holding `halfToken`; 50000 covers
its rent of `100 * (116 + 380)` under the default rent structure. -/
def halfTokenOutput : Output :=
  .basic { BasicOutput.simple 50000 (.ed25519 (.replicate 32 2)) with
    nativeTokens := ⟨[halfToken], by decide, List.pairwise_singleton _ _⟩ }

/-- The output the transaction spends: 100000 to the key `1…1`. -/
def overflowStored : CreatedOutput :=
  ⟨.replicate 32 3, 0, 0, .basic (.simple 100000 (.ed25519 (.replicate 32 1)))⟩

/-- The output with its id, as `apply_regular_essence` passes it to `semantic_validation`. -/
def overflowInputs : List (OutputId × Output) := [(.ofIndex (.replicate 32 3) 0, overflowStored.inner)]

/-- A storage at ledger index 0 whose one unspent output is `overflowStored`. -/
def overflowStorage : Storage where
  outputIdToCreatedOutput := collect [(.ofIndex (.replicate 32 3) 0, overflowStored)]
  outputIdToConsumedOutput := ∅
  outputIdUnspent := collect [(.ofIndex (.replicate 32 3) 0, ())]
  ledgerIndex := some 0
  milestoneIndexToOutputDiff := ∅
  milestoneIndexToReceipt := ∅
  spentToTreasuryOutput := ∅

/-- A transaction of the default network spending `overflowStored` into two
copies of `halfTokenOutput`: the input and the unlock of `spendTransaction`. -/
def overflowTransaction : TransactionPayload :=
  { spendTransaction with
    essence :=
      { spendTransaction.essence with
        networkId := ProtocolParameters.default.networkId .truncating
        inputsCommitment := InputsCommitment.new .truncating [overflowStored.inner]
        outputs := [halfTokenOutput, halfTokenOutput]
        outputs_length := by decide } }

/-- The block of the transaction, with the parents of `spendBlock`. -/
def overflowBlock : Block := { spendBlock with payload := some (.transaction overflowTransaction) }

/-- A tangle of the one block `9…9`, whose parent `0…0` is a solid entry point. -/
def overflowTangle : TangleView where
  blockAndMetadata blockId := if blockId = .replicate 32 9 then some (overflowBlock, false) else none
  isSolidEntryPoint blockId := blockId = .replicate 32 0

theorem native_token_overflow_aborts_confirmation :
    Block.unpackStrict .default .truncating overflowBlock.pack = some overflowBlock ∧
      overflowTransaction.semanticValidation .truncating overflowInputs 0 =
        .error .createdNativeTokensAmountOverflow ∧
      whiteFlag .truncating overflowTangle overflowStorage 4 [.replicate 32 9] (.new 1 0 none) =
        some (.error (.block .createdNativeTokensAmountOverflow)) := by
  refine ⟨by decide +kernel, by decide +kernel, ?_⟩
  -- the metadata has no decidable equality: compare the result with it forgotten
  have hrun : (whiteFlag .truncating overflowTangle overflowStorage 4 [.replicate 32 9] (.new 1 0 none)).map
      (Except.map fun _ => ()) = some (.error (.block .createdNativeTokensAmountOverflow)) := by
    decide +kernel
  exact Flow.eq_some_error_of_forget hrun

end Bee
