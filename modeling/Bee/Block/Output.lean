import Bee.Block.Condition

namespace Bee

/-!
# bee-block — native tokens, token schemes and outputs

The five output kinds of `bee-block::output`.  Each output structure carries
the facts its accessors unwrap in the source (`address()`,
`state_controller_address()`, `governor_address()`, `alias_address()` all call
`unwrap`): an output without the unlock condition it needs cannot be built,
exactly as `unpack` and the builders reject it.

* `FoundryId.build` — alias address, serial number and token scheme kind,
  packed into the 38 bytes of a foundry identifier (and of its token id);
* `ChainId` — the alias, foundry or NFT chain an output continues;
* `BasicOutput.simpleDepositAddress` — the address of a basic output that holds
  nothing but an address condition, the only kind that fulfils a storage
  deposit return.
-/

/-! ### Native tokens -/

/-- `NativeToken`: a non-zero amount of the token a foundry minted. -/
structure NativeToken where
  tokenId : TokenId
  amount : U256
  amount_ne : amount ≠ 0
  deriving DecidableEq

/-- `NativeTokens::COUNT_MAX`. -/
def NativeTokens.COUNT_MAX : Nat := 64

/-- `NativeTokens`: at most 64 tokens, strictly sorted by token id. -/
structure NativeTokens where
  toList : List NativeToken
  length_le : toList.length ≤ NativeTokens.COUNT_MAX
  sorted : toList.Pairwise (fun a b => a.tokenId < b.tokenId)
  deriving DecidableEq

/-- An output without native tokens. -/
def NativeTokens.empty : NativeTokens := ⟨[], by decide, List.Pairwise.nil⟩

/-! ### Token schemes -/

/-- `SimpleTokenScheme`, with the supply rule `verify_supply` as a field. -/
structure SimpleTokenScheme where
  mintedTokens : U256
  meltedTokens : U256
  maximumSupply : U256
  supply_ok : maximumSupply ≠ 0 ∧ meltedTokens ≤ mintedTokens ∧
    mintedTokens - meltedTokens ≤ maximumSupply
  deriving DecidableEq

/-- `TokenScheme`: only the simple scheme exists. -/
inductive TokenScheme
  | simple (scheme : SimpleTokenScheme)
  deriving DecidableEq

/-- `TokenScheme::kind`. -/
def TokenScheme.kind : TokenScheme → UInt8
  | .simple _ => 0

/-! ### Outputs -/

/-- `TreasuryOutput`. -/
structure TreasuryOutput where
  amount : UInt64
  deriving DecidableEq

/-- `BasicOutput`. -/
structure BasicOutput where
  amount : UInt64
  nativeTokens : NativeTokens
  unlockConditions : UnlockConditions
  features : Features
  address_isSome : unlockConditions.address.isSome
  deriving DecidableEq

/-- `AliasOutput`. -/
structure AliasOutput where
  amount : UInt64
  nativeTokens : NativeTokens
  aliasId : AliasId
  stateIndex : UInt32
  stateMetadata : List UInt8
  foundryCounter : UInt32
  unlockConditions : UnlockConditions
  features : Features
  immutableFeatures : Features
  stateController_isSome : unlockConditions.stateControllerAddress.isSome
  governor_isSome : unlockConditions.governorAddress.isSome
  deriving DecidableEq

/-- `FoundryOutput`. -/
structure FoundryOutput where
  amount : UInt64
  nativeTokens : NativeTokens
  serialNumber : UInt32
  tokenScheme : TokenScheme
  unlockConditions : UnlockConditions
  features : Features
  immutableFeatures : Features
  aliasAddress_isSome : unlockConditions.immutableAliasAddress.isSome
  deriving DecidableEq

/-- `NftOutput`. -/
structure NftOutput where
  amount : UInt64
  nativeTokens : NativeTokens
  nftId : NftId
  unlockConditions : UnlockConditions
  features : Features
  immutableFeatures : Features
  address_isSome : unlockConditions.address.isSome
  deriving DecidableEq

/-- `Output`. -/
inductive Output
  | treasury (output : TreasuryOutput)
  | basic (output : BasicOutput)
  | alias (output : AliasOutput)
  | foundry (output : FoundryOutput)
  | nft (output : NftOutput)
  deriving DecidableEq

/-- `FoundryId::build`: the packed alias address, the little-endian serial number
and the token scheme kind. -/
def FoundryId.build (aliasId : AliasId) (serialNumber : UInt32) (tokenSchemeKind : UInt8) :
    FoundryId :=
  ⟨[8] ++ aliasId.toList ++ Word.leBytes 4 serialNumber.toNat ++ [tokenSchemeKind], by
    simp [aliasId.length_eq]⟩

/-- `ChainId`. -/
inductive ChainId
  | alias (aliasId : AliasId)
  | foundry (foundryId : FoundryId)
  | nft (nftId : NftId)
  deriving DecidableEq

/-- `ChainId::is_null`. -/
def ChainId.isNull : ChainId → Bool
  | .alias id => id.isNull
  | .foundry id => id.isNull
  | .nft id => id.isNull

/-- `Output::AMOUNT_MIN`. -/
def Output.AMOUNT_MIN : UInt64 := 1

/-- `verify_output_amount`: an amount in `AMOUNT_MIN..=token_supply`. -/
def verifyOutputAmount (amount tokenSupply : UInt64) : Bool :=
  Output.AMOUNT_MIN ≤ amount && amount ≤ tokenSupply

/-- The unlock conditions made of one address condition. -/
def UnlockConditions.ofAddress (address : Address) : UnlockConditions :=
  ⟨[.address address], by simp [UnlockConditions.COUNT_MAX], List.pairwise_singleton _ _⟩

/-- The basic output that holds an amount and one address condition, as
`BasicOutputBuilder::new_with_amount(amount).add_unlock_condition(address)`
builds it. -/
def BasicOutput.simple (amount : UInt64) (address : Address) : BasicOutput :=
  ⟨amount, .empty, .ofAddress address, .empty, by
    simp [UnlockConditions.ofAddress, UnlockConditions.address, UnlockConditions.get,
      UnlockCondition.kind]⟩

/-- `BasicOutputBuilder::finish(token_supply)` of `BasicOutput.simple`. -/
def BasicOutput.build (amount : UInt64) (address : Address) (tokenSupply : UInt64) :
    Option BasicOutput :=
  if verifyOutputAmount amount tokenSupply then some (.simple amount address) else none

namespace BasicOutput

variable (o : BasicOutput)

/-- `BasicOutput::address`. -/
def address : Address := o.unlockConditions.address.get o.address_isSome

/-- `BasicOutput::simple_deposit_address`: the address of a basic output whose
only content is its address condition. -/
def simpleDepositAddress : Option Address :=
  match o.unlockConditions.toList with
  | [.address a] => if o.nativeTokens.toList.isEmpty && o.features.toList.isEmpty then some a else none
  | _ => none

end BasicOutput

namespace AliasOutput

variable (o : AliasOutput)

/-- `AliasOutput::state_controller_address`. -/
def stateControllerAddress : Address :=
  o.unlockConditions.stateControllerAddress.get o.stateController_isSome

/-- `AliasOutput::governor_address`. -/
def governorAddress : Address :=
  o.unlockConditions.governorAddress.get o.governor_isSome

/-- `AliasOutput::chain_id`. -/
def chainId : ChainId := .alias o.aliasId

end AliasOutput

namespace FoundryOutput

variable (o : FoundryOutput)

/-- `FoundryOutput::alias_address`: the id of the controlling alias. -/
def aliasAddress : AliasId :=
  o.unlockConditions.immutableAliasAddress.get o.aliasAddress_isSome

/-- `FoundryOutput::id`. -/
def id : FoundryId := FoundryId.build o.aliasAddress o.serialNumber o.tokenScheme.kind

/-- `FoundryOutput::token_id`: the same 38 bytes as the foundry id. -/
def tokenId : TokenId := o.id

/-- `FoundryOutput::chain_id`. -/
def chainId : ChainId := .foundry o.id

end FoundryOutput

namespace NftOutput

variable (o : NftOutput)

/-- `NftOutput::address`. -/
def address : Address := o.unlockConditions.address.get o.address_isSome

/-- `NftOutput::chain_id`. -/
def chainId : ChainId := .nft o.nftId

end NftOutput

namespace Output

/-- `Output::kind`. -/
def kind : Output → UInt8
  | .treasury _ => 2
  | .basic _ => 3
  | .alias _ => 4
  | .foundry _ => 5
  | .nft _ => 6

/-- `Output::amount`. -/
def amount : Output → UInt64
  | .treasury o => o.amount
  | .basic o => o.amount
  | .alias o => o.amount
  | .foundry o => o.amount
  | .nft o => o.amount

/-- `Output::native_tokens`. -/
def nativeTokens : Output → Option NativeTokens
  | .treasury _ => none
  | .basic o => some o.nativeTokens
  | .alias o => some o.nativeTokens
  | .foundry o => some o.nativeTokens
  | .nft o => some o.nativeTokens

/-- `Output::chain_id`. -/
def chainId : Output → Option ChainId
  | .treasury _ => none
  | .basic _ => none
  | .alias o => some o.chainId
  | .foundry o => some o.chainId
  | .nft o => some o.chainId

end Output

end Bee
