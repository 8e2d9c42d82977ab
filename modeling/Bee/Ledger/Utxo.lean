import Bee.Block.Semantic

namespace Bee

open AssocMap

/-!
# The ledger as a set of unspent outputs

The abstract ledger: a finite map from output ids to the unspent outputs they
name.  A transaction acts on it by spending the outputs its inputs name and
creating its outputs under the ids `(transaction id, index)`.  This is the
state the storage of `bee-ledger` represents and the white-flag confirmation
moves, and the state over which the ledger invariants are stated:

* `Utxo.chainIds` — the chain of every unspent alias, foundry and NFT output,
  its id resolved from the output id where it is still null;
  `Utxo.ChainsUnique` says no chain is held twice;
* `Utxo.balance` — the amount of a native token held by the unspent outputs;
  `Utxo.SupplyBounded` says it never exceeds the circulating supply
  (minted minus melted) of an unspent foundry of that token.
-/

/-- The output ids the UTXO inputs of an essence name. -/
def RegularTransactionEssence.consumedIds (e : RegularTransactionEssence) : List OutputId :=
  e.inputs.filterMap fun
    | .utxo id => some id
    | .treasury _ => none

/-- The amount of a native token an output holds. -/
def Output.tokenAmount (o : Output) (tokenId : TokenId) : Nat :=
  match o.nativeTokens with
  | some tokens => ((tokens.toList.filter (·.tokenId == tokenId)).map fun t => t.amount.toNat).sum
  | none => 0

/-- The circulating supply of a foundry's token: minted minus melted. -/
def FoundryOutput.circulatingSupply (f : FoundryOutput) : Nat :=
  match f.tokenScheme with
  | .simple s => s.mintedTokens.toNat - s.meltedTokens.toNat

/-- The unspent outputs, by output id. -/
abbrev Utxo := Map OutputId Output

namespace Utxo

variable (c : Crypto)

/-- Remove the outputs a list of ids names. -/
def spend (l : Utxo) (ids : List OutputId) : Utxo := ids.foldl (fun l id => l.erase id) l

/-- Add outputs under their ids. -/
def create (l : Utxo) (outputs : List (OutputId × Output)) : Utxo :=
  outputs.foldl (fun l p => l.insert p.1 p.2) l

/-- A transaction applied to the ledger: its inputs spent, its outputs created. -/
def applyTransaction (l : Utxo) (t : TransactionPayload) : Utxo :=
  (l.spend t.essence.consumedIds).create (t.essence.outputsWithIds (t.id c))

/-- The outputs a transaction consumes, looked up in the ledger; `none` when
one of them is not unspent. -/
def consumedOutputs (l : Utxo) (t : TransactionPayload) : Option (List (OutputId × Output)) :=
  t.essence.consumedIds.mapM fun id => (l.lookup id).map (id, ·)

/-- The ledger accepts a transaction at a milestone timestamp: every input is
unspent and `semantic_validation` finds no conflict. -/
def accepts (l : Utxo) (t : TransactionPayload) (milestoneTimestamp : UInt32) : Bool :=
  match l.consumedOutputs t with
  | some inputs =>
    match t.semanticValidation c inputs milestoneTimestamp with
    | .ok .none => true
    | _ => false
  | none => false

/-- The chain of every unspent chain output, resolved from its output id. -/
def chainIds (l : Utxo) : List ChainId :=
  l.entries.filterMap fun e => e.2.chainId.map (·.orFromOutputId c e.1)

/-- No alias, foundry or NFT chain is held by two unspent outputs. -/
def ChainsUnique (l : Utxo) : Prop := (l.chainIds c).Nodup

instance (l : Utxo) : Decidable (l.ChainsUnique c) := inferInstanceAs (Decidable (List.Nodup _))

/-- The amount of a native token the unspent outputs hold. -/
def balance (l : Utxo) (tokenId : TokenId) : Nat :=
  (l.entries.map fun e => e.2.tokenAmount tokenId).sum

/-- The unspent foundries. -/
def foundries (l : Utxo) : List FoundryOutput :=
  l.entries.filterMap fun e =>
    match e.2 with
    | .foundry f => some f
    | _ => none

/-- Every unspent foundry bounds the balance of its token by its circulating supply. -/
def SupplyBounded (l : Utxo) : Prop :=
  ∀ f ∈ l.foundries, l.balance f.tokenId ≤ f.circulatingSupply

instance (l : Utxo) : Decidable l.SupplyBounded :=
  inferInstanceAs (Decidable (∀ f ∈ l.foundries, l.balance f.tokenId ≤ f.circulatingSupply))

/-! ### Two outputs of one chain -/

/-- The NFT `5…5` with an amount, locked to the key `1…1`. -/
def heldNft (amount : UInt64) : NftOutput :=
  ⟨amount, .empty, .replicate 32 5, .ofAddress (.ed25519 (.replicate 32 1)), .empty, .empty, by
    simp [UnlockConditions.ofAddress, UnlockConditions.address, UnlockConditions.get,
      UnlockCondition.kind]⟩

/-- A ledger holding the NFT `5…5`. -/
def nftLedger : Utxo := collect [(.ofIndex (.replicate 32 7) 0, .nft (heldNft 2))]

/-- A transaction that spends the NFT and creates two outputs of its chain. -/
def nftDuplicate : TransactionPayload where
  essence :=
    { networkId := 0
      inputs := [.utxo (.ofIndex (.replicate 32 7) 0)]
      inputsCommitment := InputsCommitment.new .truncating [.nft (heldNft 2)]
      outputs := [.nft (heldNft 1), .nft (heldNft 1)]
      payload := none
      inputs_length := by decide
      outputs_length := by decide
      inputs_verified := by decide }
  unlocks := signatureUnlocks
  unlocks_length := rfl

theorem duplicate_chain_outputs_accepted :
    nftLedger.ChainsUnique .truncating ∧ nftLedger.accepts .truncating nftDuplicate 0 = true ∧
      ¬ (nftLedger.applyTransaction .truncating nftDuplicate).ChainsUnique .truncating := by
  decide +kernel

/-! ### Two outputs of one foundry -/

/-- The alias `5…5` at a state index, controlled by the key `1…1`, with one foundry. -/
def controllingAlias (stateIndex : UInt32) : AliasOutput :=
  ⟨1, .empty, .replicate 32 5, stateIndex, [], 1,
    ⟨[.stateControllerAddress (.ed25519 (.replicate 32 1)),
      .governorAddress (.ed25519 (.replicate 32 1))], by decide, by decide⟩,
    .empty, .empty, by decide, by decide⟩

/-- A foundry of the alias `5…5` (serial number 1) holding 100 of its own
tokens, with a maximum supply of 1000 and a minted amount. -/
def mintingFoundry (amount : UInt64) (minted : Nat) (h : minted ≤ 1000 := by decide) : FoundryOutput :=
  ⟨amount,
    ⟨[⟨FoundryId.build (.replicate 32 5) 1 0, BitVec.ofNat 256 100, by decide⟩], by decide,
      List.pairwise_singleton _ _⟩,
    1,
    .simple ⟨BitVec.ofNat 256 minted, 0, BitVec.ofNat 256 1000, by
      refine ⟨by decide, ?_, ?_⟩
      · simp [BitVec.le_def]
      · simp [BitVec.le_def]
        omega⟩,
    ⟨[.immutableAliasAddress (.replicate 32 5)], by decide, List.pairwise_singleton _ _⟩,
    .empty, .empty, by decide⟩

/-- A ledger with the alias and its foundry, which has minted the 100 tokens it holds. -/
def foundryLedger : Utxo :=
  collect [(.ofIndex (.replicate 32 7) 0, .alias (controllingAlias 1)),
    (.ofIndex (.replicate 32 7) 1, .foundry (mintingFoundry 2 100))]

/-- A transaction that transitions the alias and creates two outputs of the
foundry, one unchanged and one that mints 100 more tokens. -/
def foundryDuplicate : TransactionPayload where
  essence :=
    { networkId := 0
      inputs := [.utxo (.ofIndex (.replicate 32 7) 0), .utxo (.ofIndex (.replicate 32 7) 1)]
      inputsCommitment := InputsCommitment.new .truncating
        [.alias (controllingAlias 1), .foundry (mintingFoundry 2 100)]
      outputs := [.alias (controllingAlias 2), .foundry (mintingFoundry 1 100),
        .foundry (mintingFoundry 1 200)]
      payload := none
      inputs_length := by decide
      outputs_length := by decide
      inputs_verified := by decide }
  unlocks := ⟨[.signature (.ed25519 ⟨.replicate 32 1, .replicate 64 0⟩), .alias 0 (by decide)],
    by decide, by decide⟩
  unlocks_length := rfl

theorem duplicate_foundry_exceeds_supply :
    foundryLedger.SupplyBounded ∧ foundryLedger.accepts .truncating foundryDuplicate 0 = true ∧
      ¬ (foundryLedger.applyTransaction .truncating foundryDuplicate).SupplyBounded := by
  decide +kernel

end Utxo

end Bee
