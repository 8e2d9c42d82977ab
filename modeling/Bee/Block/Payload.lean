import Bee.Block.Output
import Bee.Ternary.T5B1

namespace Bee

/-!
# bee-block — inputs, unlocks, payloads and blocks

The remaining types of `bee-block`, from the inputs and unlocks of a
transaction up to the block that carries a payload.  Each structure keeps as a
field what every way of building it checks and what needs no protocol
parameter: the bounded counts of the `BoxedSlicePrefix` fields, the sorting of
`Parents` and `MilestoneOptions`, and `verify_unlocks`.  Checks that read the
protocol parameters (output amounts, the network id, storage deposits, the sum
of migrated funds) are made by `unpack` and the builders, and are modelled with
them.

Two payload fields whose type in the source is the recursive `Payload` are
given the one kind they can hold after `unpack`: the optional payload of a
transaction essence is tagged data (`verify_payload`), and the transaction of a
receipt is a treasury transaction (`verify_transaction`).

* `verifyUnlocks` — signature unlocks are unique, and a reference, alias or NFT
  unlock points strictly below its own position (a reference at a signature);
* `verifyInputs` — every input is a UTXO input, and no output id is spent twice;
* `TailTransactionHash.new` — 49 bytes that must read as 243 T5B1 trits.
-/

/-! ### Errors -/

/-- The variants of `bee_block::Error` that the modelled functions return. -/
inductive Error
  | duplicateSignatureUnlock (index : UInt16)
  | invalidUnlockReference (index : UInt16)
  | invalidUnlockAlias (index : UInt16)
  | invalidUnlockNft (index : UInt16)
  | duplicateUtxo (outputId : OutputId)
  | invalidInputKind (kind : UInt8)
  | unsupportedOutputKind (kind : UInt8)
  | storageDepositReturnOverflow
  | consumedAmountOverflow
  | consumedNativeTokensAmountOverflow
  | createdAmountOverflow
  | createdNativeTokensAmountOverflow
  | invalidInputOutputIndex (index : UInt16)
  | invalidOutputAmount (amount : UInt64)
  deriving DecidableEq

/-! ### Inputs -/

/-- `INPUT_COUNT_MAX`, also the bound of outputs and unlocks. -/
def INPUT_COUNT_MAX : Nat := 128

/-- `INPUT_INDEX_MAX`: the largest index of an input or unlock. -/
def INPUT_INDEX_MAX : Nat := 127

/-- `Input`: a UTXO input names an output, a treasury input a milestone. -/
inductive Input
  | utxo (outputId : OutputId)
  | treasury (milestoneId : MilestoneId)
  deriving DecidableEq

/-- `Input::kind`. -/
def Input.kind : Input → UInt8
  | .utxo _ => 0
  | .treasury _ => 1

/-- `verify_inputs`: only UTXO inputs, each output id once (`seen_utxos`). -/
def verifyInputs : List Input → List OutputId → Except Error Unit
  | [], _ => .ok ()
  | .utxo id :: rest, seen =>
    if id ∈ seen then .error (.duplicateUtxo id) else verifyInputs rest (id :: seen)
  | input :: _, _ => .error (.invalidInputKind input.kind)

/-! ### Unlocks -/

/-- `Unlock`.  The index of a reference, alias or NFT unlock is an
`UnlockIndex`, a `BoundedU16<0, 127>`. -/
inductive Unlock
  | signature (signature : Signature)
  | reference (index : UInt16) (index_le : index.toNat ≤ INPUT_INDEX_MAX)
  | alias (index : UInt16) (index_le : index.toNat ≤ INPUT_INDEX_MAX)
  | nft (index : UInt16) (index_le : index.toNat ≤ INPUT_INDEX_MAX)
  deriving DecidableEq

/-- `Unlock::kind`. -/
def Unlock.kind : Unlock → UInt8
  | .signature _ => 0
  | .reference _ _ => 1
  | .alias _ _ => 2
  | .nft _ _ => 3

/-- `Unlock::Signature(_)` matched. -/
def Unlock.isSignature : Unlock → Bool
  | .signature _ => true
  | _ => false

/-- Whether the unlock at position `i` is a signature unlock. -/
def isSignatureAt (unlocks : List Unlock) (i : Nat) : Bool :=
  match unlocks[i]? with
  | some u => u.isSignature
  | none => false

/-- The loop of `verify_unlocks` from position `index`, with `all` the whole
slice (read by a reference) and `seen` the signatures met so far. -/
def verifyUnlocksFrom (all : List Unlock) : List Unlock → UInt16 → List Signature → Except Error Unit
  | [], _, _ => .ok ()
  | .signature s :: rest, index, seen =>
    if s ∈ seen then .error (.duplicateSignatureUnlock index)
    else verifyUnlocksFrom all rest (index + 1) (s :: seen)
  | .reference r _ :: rest, index, seen =>
    if index = 0 ∨ r ≥ index ∨ !isSignatureAt all r.toNat
    then .error (.invalidUnlockReference index)
    else verifyUnlocksFrom all rest (index + 1) seen
  | .alias a _ :: rest, index, seen =>
    if index = 0 ∨ a ≥ index then .error (.invalidUnlockAlias index)
    else verifyUnlocksFrom all rest (index + 1) seen
  | .nft n _ :: rest, index, seen =>
    if index = 0 ∨ n ≥ index then .error (.invalidUnlockNft index)
    else verifyUnlocksFrom all rest (index + 1) seen

/-- `verify_unlocks::<true>`. -/
def verifyUnlocks (unlocks : List Unlock) : Except Error Unit :=
  verifyUnlocksFrom unlocks unlocks 0 []

/-- `Unlocks`: `1..=128` unlocks that pass `verify_unlocks`. -/
structure Unlocks where
  toList : List Unlock
  length_mem : 1 ≤ toList.length ∧ toList.length ≤ INPUT_COUNT_MAX
  verified : verifyUnlocks toList = .ok ()
  deriving DecidableEq

/-! ### Tagged data and transactions -/

/-- `TaggedDataPayload`: a tag of at most 64 bytes, data of at most 32768. -/
structure TaggedDataPayload where
  tag : List UInt8
  data : List UInt8
  tag_le : tag.length ≤ 64
  data_le : data.length ≤ 32768
  deriving DecidableEq

/-- `RegularTransactionEssence`; its payload is tagged data if any. -/
structure RegularTransactionEssence where
  networkId : UInt64
  inputs : List Input
  inputsCommitment : Bytes 32
  outputs : List Output
  payload : Option TaggedDataPayload
  inputs_length : 1 ≤ inputs.length ∧ inputs.length ≤ INPUT_COUNT_MAX
  outputs_length : 1 ≤ outputs.length ∧ outputs.length ≤ INPUT_COUNT_MAX
  inputs_verified : verifyInputs inputs [] = .ok ()
  deriving DecidableEq

/-- `TransactionPayload`: one unlock per input (`verify_essence_unlocks`). -/
structure TransactionPayload where
  essence : RegularTransactionEssence
  unlocks : Unlocks
  unlocks_length : essence.inputs.length = unlocks.toList.length
  deriving DecidableEq

/-- `TreasuryTransactionPayload`: a treasury input and a treasury output. -/
structure TreasuryTransactionPayload where
  input : MilestoneId
  output : TreasuryOutput
  deriving DecidableEq

/-! ### Milestones -/

/-- `TailTransactionHash`: the T5B1 buffer of 243 trits, as its 49 bytes. -/
structure TailTransactionHash where
  toBytes : Bytes 49
  deriving DecidableEq

/-- `TailTransactionHash::new`: `try_from_raw(bytes, 243)?.to_buf()`. -/
def TailTransactionHash.new (bytes : Bytes 49) : Option TailTransactionHash :=
  match h : Ternary.fromRaw bytes.toList 243 with
  | some l => some ⟨⟨l, Ternary.fromRaw_length h⟩⟩
  | none => none

/-- `MigratedFundsEntry::AMOUNT_MIN`. -/
def MigratedFundsEntry.AMOUNT_MIN : Nat := 1000000

/-- `MigratedFundsEntry`: funds migrated from a legacy tail transaction. -/
structure MigratedFundsEntry where
  tailTransactionHash : TailTransactionHash
  address : Address
  amount : UInt64
  amount_ge : MigratedFundsEntry.AMOUNT_MIN ≤ amount.toNat
  deriving DecidableEq

/-- `ReceiptMilestoneOption`: `1..=128` migrated funds and the treasury transaction. -/
structure ReceiptMilestoneOption where
  migratedAt : UInt32
  last : Bool
  funds : List MigratedFundsEntry
  transaction : TreasuryTransactionPayload
  funds_length : 1 ≤ funds.length ∧ funds.length ≤ INPUT_COUNT_MAX
  deriving DecidableEq

/-- `ReceiptMilestoneOption::amount`: the sum of the migrated funds (`sum()` of `u64`). -/
def ReceiptMilestoneOption.amount (r : ReceiptMilestoneOption) : UInt64 :=
  (r.funds.map (·.amount)).sum

/-- `ParametersMilestoneOption`: at most 8192 bytes of binary parameters. -/
structure ParametersMilestoneOption where
  targetMilestoneIndex : UInt32
  protocolVersion : UInt8
  binaryParameters : List UInt8
  binaryParameters_le : binaryParameters.length ≤ 8192
  deriving DecidableEq

/-- `MilestoneOption`. -/
inductive MilestoneOption
  | receipt (option : ReceiptMilestoneOption)
  | parameters (option : ParametersMilestoneOption)
  deriving DecidableEq

/-- `MilestoneOption::kind`. -/
def MilestoneOption.kind : MilestoneOption → UInt8
  | .receipt _ => 0
  | .parameters _ => 1

/-- `MilestoneOptions`: at most two options, strictly sorted by kind. -/
structure MilestoneOptions where
  toList : List MilestoneOption
  length_le : toList.length ≤ 2
  sorted : toList.Pairwise (fun a b => a.kind < b.kind)
  deriving DecidableEq

/-- `MilestoneOptions::receipt`. -/
def MilestoneOptions.receipt (o : MilestoneOptions) : Option ReceiptMilestoneOption :=
  match o.toList.find? (·.kind == 0) with
  | some (.receipt r) => some r
  | _ => none

/-- `Parents`: `1..=8` block ids, strictly sorted. -/
structure Parents where
  toList : List BlockId
  length_mem : 1 ≤ toList.length ∧ toList.length ≤ 8
  sorted : toList.Pairwise (· < ·)
  deriving DecidableEq

/-- `MilestoneEssence`. -/
structure MilestoneEssence where
  index : UInt32
  timestamp : UInt32
  protocolVersion : UInt8
  previousMilestoneId : MilestoneId
  parents : Parents
  inclusionMerkleRoot : Bytes 32
  appliedMerkleRoot : Bytes 32
  metadata : List UInt8
  options : MilestoneOptions
  metadata_le : metadata.length < 2 ^ 16
  deriving DecidableEq

/-- `MilestonePayload`: an essence and `1..=255` signatures. -/
structure MilestonePayload where
  essence : MilestoneEssence
  signatures : List Signature
  signatures_length : 1 ≤ signatures.length ∧ signatures.length ≤ 255
  deriving DecidableEq

/-! ### Payloads and blocks -/

/-- `Payload`. -/
inductive Payload
  | transaction (payload : TransactionPayload)
  | milestone (payload : MilestonePayload)
  | treasuryTransaction (payload : TreasuryTransactionPayload)
  | taggedData (payload : TaggedDataPayload)
  deriving DecidableEq

/-- `Payload::kind`. -/
def Payload.kind : Payload → UInt32
  | .transaction _ => 6
  | .milestone _ => 7
  | .treasuryTransaction _ => 4
  | .taggedData _ => 5

/-- `Block`. -/
structure Block where
  protocolVersion : UInt8
  parents : Parents
  payload : Option Payload
  nonce : UInt64
  deriving DecidableEq

/-! ### Protocol parameters -/

/-- `RentStructure`; its `v_byte_offset` is `RentStructure.vByteOffset`. -/
structure RentStructure where
  vByteCost : UInt32
  vByteFactorKey : UInt8
  vByteFactorData : UInt8
  deriving DecidableEq

/-- `v_byte_offset`: an output id weighted as key, a block id, a milestone index
and a timestamp weighted as data. -/
def RentStructure.vByteOffset (r : RentStructure) : UInt32 :=
  34 * r.vByteFactorKey.toUInt32 + 32 * r.vByteFactorData.toUInt32 +
    4 * r.vByteFactorData.toUInt32 + 4 * r.vByteFactorData.toUInt32

/-- `RentStructure::default`: byte cost 100, key factor 10, data factor 1. -/
def RentStructure.default : RentStructure := ⟨100, 10, 1⟩

/-- `ProtocolParameters`. -/
structure ProtocolParameters where
  protocolVersion : UInt8
  networkName : List UInt8
  bech32Hrp : List UInt8
  minPowScore : UInt32
  belowMaxDepth : UInt8
  rentStructure : RentStructure
  tokenSupply : UInt64
  deriving DecidableEq

/-- `PROTOCOL_VERSION`. -/
def PROTOCOL_VERSION : UInt8 := 2

/-- `ProtocolParameters::default`: the network `shimmer` with HRP `smr`, minimum
PoW score 1500, below-max-depth 15, the default rent structure and a token
supply of 1 813 620 509 061 365. -/
def ProtocolParameters.default : ProtocolParameters where
  protocolVersion := PROTOCOL_VERSION
  networkName := [115, 104, 105, 109, 109, 101, 114]
  bech32Hrp := [115, 109, 114]
  minPowScore := 1500
  belowMaxDepth := 15
  rentStructure := .default
  tokenSupply := 1813620509061365

end Bee
