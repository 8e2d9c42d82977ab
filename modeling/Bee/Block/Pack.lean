import Bee.Block.Payload
import Bee.Lib.Codec

namespace Bee

open Codec

/-!
# bee-block — packing

The `Packable::pack` of every type of `bee-block`: fields in declaration
order, enum variants behind their kind tag, and each bounded prefix as a count
of its own width (`u8` for native tokens, unlock conditions, features, parents,
milestone options and signatures; `u16` for inputs, outputs, unlocks, receipt
funds and byte strings of up to `u16::MAX` bytes; `u32` for tagged data).  A
`U256` is 32 little-endian bytes.  An optional payload is its length as `u32`
(`0` for none) followed by the payload, itself a `u32` kind and its fields.

`packedLen` is the length of the packed bytes, as `packed_len` is for every
`Packable` of the crate.
-/

/-- `U256::pack`: 32 little-endian bytes. -/
def packU256 (x : U256) : List UInt8 := Word.leBytes 32 x.toNat

/-- `Address::pack`. -/
def Address.pack : Address → List UInt8
  | .ed25519 a => 0 :: a.toList
  | .alias id => 8 :: id.toList
  | .nft id => 16 :: id.toList

/-- `OutputId::pack`: the transaction id and the little-endian index. -/
def OutputId.pack (o : OutputId) : List UInt8 := o.transactionId.toList ++ Encoder.u16 o.index

/-- `NativeToken::pack`. -/
def NativeToken.pack (t : NativeToken) : List UInt8 := t.tokenId.toList ++ packU256 t.amount

/-- `NativeTokens::pack`. -/
def NativeTokens.pack (n : NativeTokens) : List UInt8 :=
  Encoder.u8 n.toList.length.toUInt8 ++ (n.toList.map NativeToken.pack).flatten

/-- `TokenScheme::pack`. -/
def TokenScheme.pack : TokenScheme → List UInt8
  | .simple s => 0 :: (packU256 s.mintedTokens ++ packU256 s.meltedTokens ++ packU256 s.maximumSupply)

/-- `UnlockCondition::pack`; the immutable alias address is packed as an `Address`. -/
def UnlockCondition.pack : UnlockCondition → List UInt8
  | .address a => 0 :: a.pack
  | .storageDepositReturn a n => 1 :: (a.pack ++ Encoder.u64 n)
  | .timelock t => 2 :: Encoder.u32 t
  | .expiration a t => 3 :: (a.pack ++ Encoder.u32 t)
  | .stateControllerAddress a => 4 :: a.pack
  | .governorAddress a => 5 :: a.pack
  | .immutableAliasAddress id => 6 :: (Address.alias id).pack

/-- `UnlockConditions::pack`. -/
def UnlockConditions.pack (u : UnlockConditions) : List UInt8 :=
  Encoder.u8 u.toList.length.toUInt8 ++ (u.toList.map UnlockCondition.pack).flatten

/-- `Feature::pack`. -/
def Feature.pack : Feature → List UInt8
  | .sender a => 0 :: a.pack
  | .issuer a => 1 :: a.pack
  | .metadata d _ => 2 :: (Encoder.u16 d.length.toUInt16 ++ d)
  | .tag t _ => 3 :: (Encoder.u8 t.length.toUInt8 ++ t)

/-- `Features::pack`. -/
def Features.pack (f : Features) : List UInt8 :=
  Encoder.u8 f.toList.length.toUInt8 ++ (f.toList.map Feature.pack).flatten

/-- `Output::pack`: the kind, then the fields of the output. -/
def Output.pack : Output → List UInt8
  | .treasury o => 2 :: Encoder.u64 o.amount
  | .basic o => 3 :: (Encoder.u64 o.amount ++ o.nativeTokens.pack ++ o.unlockConditions.pack ++
      o.features.pack)
  | .alias o => 4 :: (Encoder.u64 o.amount ++ o.nativeTokens.pack ++ o.aliasId.toList ++
      Encoder.u32 o.stateIndex ++ Encoder.u16 o.stateMetadata.length.toUInt16 ++ o.stateMetadata ++
      Encoder.u32 o.foundryCounter ++ o.unlockConditions.pack ++ o.features.pack ++
      o.immutableFeatures.pack)
  | .foundry o => 5 :: (Encoder.u64 o.amount ++ o.nativeTokens.pack ++ Encoder.u32 o.serialNumber ++
      o.tokenScheme.pack ++ o.unlockConditions.pack ++ o.features.pack ++ o.immutableFeatures.pack)
  | .nft o => 6 :: (Encoder.u64 o.amount ++ o.nativeTokens.pack ++ o.nftId.toList ++
      o.unlockConditions.pack ++ o.features.pack ++ o.immutableFeatures.pack)

/-- `Input::pack`. -/
def Input.pack : Input → List UInt8
  | .utxo id => 0 :: id.pack
  | .treasury m => 1 :: m.toList

/-- `Signature::pack`. -/
def Signature.pack : Signature → List UInt8
  | .ed25519 s => 0 :: (s.publicKey.toList ++ s.signature.toList)

/-- `Unlock::pack`. -/
def Unlock.pack : Unlock → List UInt8
  | .signature s => 0 :: s.pack
  | .reference i _ => 1 :: Encoder.u16 i
  | .alias i _ => 2 :: Encoder.u16 i
  | .nft i _ => 3 :: Encoder.u16 i

/-- `Unlocks::pack`. -/
def Unlocks.pack (u : Unlocks) : List UInt8 :=
  Encoder.u16 u.toList.length.toUInt16 ++ (u.toList.map Unlock.pack).flatten

/-- `TaggedDataPayload::pack`. -/
def TaggedDataPayload.pack (p : TaggedDataPayload) : List UInt8 :=
  Encoder.u8 p.tag.length.toUInt8 ++ p.tag ++ Encoder.u32 p.data.length.toUInt32 ++ p.data

/-- `OptionalPayload::pack` of the packed bytes of a payload (kind included). -/
def packOptional : Option (List UInt8) → List UInt8
  | none => Encoder.u32 0
  | some bytes => Encoder.u32 bytes.length.toUInt32 ++ bytes

/-- `RegularTransactionEssence::pack`. -/
def RegularTransactionEssence.pack (e : RegularTransactionEssence) : List UInt8 :=
  Encoder.u64 e.networkId ++ Encoder.u16 e.inputs.length.toUInt16 ++ (e.inputs.map Input.pack).flatten ++
    e.inputsCommitment.toList ++ Encoder.u16 e.outputs.length.toUInt16 ++
    (e.outputs.map Output.pack).flatten ++
    packOptional (e.payload.map fun p => Encoder.u32 5 ++ p.pack)

/-- `TransactionEssence::pack`: the essence kind `1`, then the regular essence. -/
def RegularTransactionEssence.packEssence (e : RegularTransactionEssence) : List UInt8 :=
  1 :: e.pack

/-- `TransactionPayload::pack`. -/
def TransactionPayload.pack (t : TransactionPayload) : List UInt8 :=
  t.essence.packEssence ++ t.unlocks.pack

/-- `TreasuryTransactionPayload::pack`: a treasury `Input` and a treasury `Output`. -/
def TreasuryTransactionPayload.pack (t : TreasuryTransactionPayload) : List UInt8 :=
  (Input.treasury t.input).pack ++ (Output.treasury t.output).pack

/-- `MigratedFundsEntry::pack`; the tail transaction hash is its 49 buffer bytes. -/
def MigratedFundsEntry.pack (f : MigratedFundsEntry) : List UInt8 :=
  f.tailTransactionHash.toBytes.toList ++ f.address.pack ++ Encoder.u64 f.amount

/-- `ReceiptMilestoneOption::pack`; the transaction is packed as a `Payload`. -/
def ReceiptMilestoneOption.pack (r : ReceiptMilestoneOption) : List UInt8 :=
  Encoder.u32 r.migratedAt ++ Encoder.bool r.last ++ Encoder.u16 r.funds.length.toUInt16 ++
    (r.funds.map MigratedFundsEntry.pack).flatten ++ Encoder.u32 4 ++ r.transaction.pack

/-- `ParametersMilestoneOption::pack`. -/
def ParametersMilestoneOption.pack (p : ParametersMilestoneOption) : List UInt8 :=
  Encoder.u32 p.targetMilestoneIndex ++ Encoder.u8 p.protocolVersion ++
    Encoder.u16 p.binaryParameters.length.toUInt16 ++ p.binaryParameters

/-- `MilestoneOption::pack`. -/
def MilestoneOption.pack : MilestoneOption → List UInt8
  | .receipt r => 0 :: r.pack
  | .parameters p => 1 :: p.pack

/-- `MilestoneOptions::pack`. -/
def MilestoneOptions.pack (o : MilestoneOptions) : List UInt8 :=
  Encoder.u8 o.toList.length.toUInt8 ++ (o.toList.map MilestoneOption.pack).flatten

/-- `Parents::pack`. -/
def Parents.pack (p : Parents) : List UInt8 :=
  Encoder.u8 p.toList.length.toUInt8 ++ (p.toList.map Bytes.toList).flatten

/-- `MilestoneEssence::pack`. -/
def MilestoneEssence.pack (e : MilestoneEssence) : List UInt8 :=
  Encoder.u32 e.index ++ Encoder.u32 e.timestamp ++ Encoder.u8 e.protocolVersion ++
    e.previousMilestoneId.toList ++ e.parents.pack ++ e.inclusionMerkleRoot.toList ++
    e.appliedMerkleRoot.toList ++ Encoder.u16 e.metadata.length.toUInt16 ++ e.metadata ++
    e.options.pack

/-- `MilestonePayload::pack`. -/
def MilestonePayload.pack (m : MilestonePayload) : List UInt8 :=
  m.essence.pack ++ Encoder.u8 m.signatures.length.toUInt8 ++ (m.signatures.map Signature.pack).flatten

/-- `Payload::pack`: the `u32` kind, then the payload. -/
def Payload.pack : Payload → List UInt8
  | .transaction t => Encoder.u32 6 ++ t.pack
  | .milestone m => Encoder.u32 7 ++ m.pack
  | .treasuryTransaction t => Encoder.u32 4 ++ t.pack
  | .taggedData p => Encoder.u32 5 ++ p.pack

/-- `Block::pack`. -/
def Block.pack (b : Block) : List UInt8 :=
  Encoder.u8 b.protocolVersion ++ b.parents.pack ++ packOptional (b.payload.map Payload.pack) ++
    Encoder.u64 b.nonce

/-! ### Rent -/

/-- `Rent::rent_cost` of an output: `v_byte_cost * (packed_len * v_byte_factor_data + v_byte_offset)`
in `u64`. -/
def Output.rentCost (o : Output) (r : RentStructure) : UInt64 :=
  r.vByteCost.toUInt64 * (o.pack.length.toUInt64 * r.vByteFactorData.toUInt64 + r.vByteOffset.toUInt64)

end Bee
